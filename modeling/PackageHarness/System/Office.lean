/-
# PackageHarness.System.Office — a life with the handlers of its operators.

Nothing keeps the worker or another handler from writing between a handler's reading of a record and
its saving of the changed copy. An `Office` is a life with the handlers at work next to it. A handler
can put back an older state of a record, but not of one that was created and is now to be executed:
that one has not been on hold, so no handler has a copy of it to save.
-/
import PackageHarness.System.History
import PackageHarness.System.Interleaving

namespace PackageHarness

open Interaction Relation

structure Office where
  life : Life
  handlers : List Handler

namespace Office

def start (ext : Externals) (deployment : Deployment) : Office := ⟨.start ext deployment, []⟩

/-- One step of one party. The operators of the life itself are those whose handlers nobody comes in
between. -/
inductive Step (ext : Externals) : Office → Office → Prop
  | live {life after : Life} {handlers : List Handler} :
      Life.Step ext atomicOperators life after → after.past = life.past →
      Step ext ⟨life, handlers⟩ ⟨after, handlers⟩
  | arrive {life : Life} {handlers : List Handler} {action : RecoveryAction} {run : RunId} :
      Step ext ⟨life, handlers⟩ ⟨life, .arrived action run :: handlers⟩
  | handle {life : Life} {earlier later : List Handler} {handler : Handler}
      {program : Worker (Except OperatorRecoveryError Unit)} {world : World} :
      Interaction.Step (unattended noDefect) (handler.program, life.world) (program, world) →
      Step ext ⟨life, earlier ++ handler :: later⟩
        ⟨{ life with world := world }, earlier ++ handler.goesOn program :: later⟩
  | restart {life : Life} {handlers : List Handler} {deployment : Deployment} :
      Step ext ⟨life, handlers⟩
        ⟨life.restarted ext deployment, handlers.filter Handler.returned⟩

/-- Any number of steps. -/
def Runs (ext : Externals) : Office → Office → Prop := ReflTransGen (Step ext)

def Reachable (ext : Externals) (office : Office) : Prop :=
  ∃ deployment, Runs ext (start ext deployment) office

end Office

/-! ## The life in an office -/

/-- Anything may happen outside the worker. -/
def crowd : Company where
  surroundings := unattended noDefect
  outside := fun _ _ _ => True

section

variable {ext : Externals} {life after : Life} {office later : Office} {run : RunId}

theorem Life.Step.crowded (h : Life.Step ext atomicOperators life after) :
    Life.Step ext crowd life after := by
  cases h with
  | answer hanswer => exact .answer hanswer
  | drift hdrift => exact .drift hdrift
  | unroll => exact .unroll
  | outside => exact .outside trivial
  | restart => exact .restart

theorem Office.Reachable.crowded (h : office.Reachable ext) :
    Life.Reachable ext crowd office.life := by
  obtain ⟨deployment, hruns⟩ := h
  refine ⟨deployment, ?_⟩
  induction hruns with
  | refl => exact .refl
  | tail _ hstep ih =>
      cases hstep with
      | live hlive => exact ih.tail hlive.crowded
      | arrive => exact ih
      | handle => exact ih.tail (.outside trivial)
      | restart => exact ih.tail .restart

/-- A life whose operators nobody comes in between needs no handlers. -/
theorem Life.Reachable.unattended (h : Life.Reachable ext atomicOperators life) :
    Office.Reachable ext ⟨life, []⟩ := by
  obtain ⟨deployment, hruns⟩ := h
  refine ⟨deployment, hruns.lift (fun life => (⟨life, []⟩ : Office)) fun life after hstep => ?_⟩
  cases hstep with
  | answer hanswer => exact .live (.answer hanswer) rfl
  | drift hdrift => exact .live (.drift hdrift) rfl
  | unroll => exact .live .unroll rfl
  | outside hmoves => exact .live (.outside hmoves) rfl
  | restart => exact .restart

/-! ## What a handler cannot undo -/

namespace Life

/-- The run has a record, and is not the one whose execution is being prepared. -/
def Older (life : Life) (run : RunId) : Prop :=
  (life.world.ledger.store run).isSome ∧ ∀ record, life.chronicle.Created record → record.id ≠ run

/-- The ledger has stayed as it was, or an older record was written. -/
def Amended (life : Life) (ledger : Ledger) : Prop :=
  ledger = life.world.ledger ∨
    ∃ changed, life.Older changed.id ∧ ledger = life.world.ledger.write changed

theorem Amended.keeps {ledger : Ledger} (h : life.Amended ledger) :
    life.world.ledger.Keeps ledger := by
  rcases h with rfl | ⟨changed, _, rfl⟩
  · exact Ledger.Keeps.refl _
  · exact Ledger.keeps_write _ _

theorem Orderly.amended (h : life.Orderly) {world : World} (hamended : life.Amended world.ledger) :
    Orderly { life with world := world } := by
  refine h.moved hamended.keeps fun record hcreated => ?_
  rcases hamended with hsame | ⟨changed, holder, hwritten⟩
  · rw [hsame]
  · rw [hwritten]
    exact RunStore.write_of_ne _ _ (holder.2 record hcreated)

theorem Older.moved (h : life.Older run) {world : World}
    (hkeeps : life.world.ledger.Keeps world.ledger) : Older { life with world := world } run :=
  ⟨hkeeps run h.1, h.2⟩

theorem Older.stirred (h : life.Older run) {world : World} (hstirs : life.world.Stirs world) :
    Older { life with world := world } run := by
  refine h.moved ?_
  rw [hstirs.1]
  exact Ledger.Keeps.refl _

theorem Older.restarted (h : life.Older run) {deployment : Deployment} :
    (life.restarted ext deployment).Older run :=
  ⟨h.1, fun _ hcreated => absurd hcreated Chronicle.not_created_nil⟩

theorem Older.step (hrun : life.Older run) (h : Step ext atomicOperators life after) :
    after.Older run := by
  cases h with
  | answer hanswer =>
      refine ⟨hanswer.1.1.keeps run hrun.1, fun record hcreated => ?_⟩
      rcases hcreated.cases with hexchange | ⟨_, hearlier⟩
      · cases hexchange
        rintro rfl
        -- no run that has a record is created
        have hknown := hrun.1
        rw [hanswer.1.1.created.1] at hknown
        cases hknown
      · exact hrun.2 record hearlier
  | drift hdrift => exact hrun.stirred hdrift
  | unroll => exact hrun
  | outside hmoves =>
      rcases hmoves with hoperates | hstirs
      · exact hrun.moved hoperates.operated.keeps
      · exact hrun.stirred hstirs
  | restart => exact hrun.restarted

/-- What can be read on hold is older. -/
theorem Orderly.older (h : life.Orderly) (hlife : life.episode.Spoken ext)
    {record : RunRecord} (hrecord : life.world.ledger.store run = some record)
    (hheld : record.worker.manualRecovery.isSome) : life.Older run := by
  refine ⟨Option.isSome_iff_exists.mpr ⟨record, hrecord⟩, ?_⟩
  rintro created hcreated rfl
  rw [h.unheld hlife hcreated record hrecord] at hheld
  cases hheld

variable {program program' : Worker (Except OperatorRecoveryError Unit)} {world : World}

/-- Where the program of a handler can stand: what it writes is a change of an older record. -/
inductive Poised (life : Life) (program : Worker (Except OperatorRecoveryError Unit)) : Prop
  | reads (action : RecoveryAction) (run : RunId) : program = action.handle run →
      Poised life program
  | writes (action : RecoveryAction) (run : RunId) (changed : RunRecord) :
      program = action.store run changed → life.Older changed.id → Poised life program
  | finishes (action : RecoveryAction) : program = action.finish → Poised life program
  | answers (answer : Except OperatorRecoveryError Unit) : program = .pure answer →
      Poised life program

theorem Poised.mono (h : life.Poised program) (holder : ∀ run, life.Older run → after.Older run) :
    after.Poised program := by
  cases h with
  | reads action run hprogram => exact .reads action run hprogram
  | writes action run changed hprogram hchanged =>
      exact .writes action run changed hprogram (holder _ hchanged)
  | finishes action hprogram => exact .finishes action hprogram
  | answers answer hprogram => exact .answers answer hprogram

theorem Poised.amended (h : life.Poised program) (hamended : life.Amended world.ledger) :
    Poised { life with world := world } program :=
  h.mono fun _ holder => holder.moved hamended.keeps

/-- A handler that has read a record is about to write an older one, or has answered. -/
theorem Orderly.proceed_poised (h : life.Orderly) (hlife : life.episode.Spoken ext)
    {action : RecoveryAction} {found : Except StoreError (Option RunRecord)}
    (hfound : ∀ stored, found = .ok stored → stored = life.world.ledger.store run) :
    life.Poised (action.proceed run found) := by
  rcases found with error | _ | record
  · exact .answers _ rfl
  · exact .answers _ rfl
  · have hrecord : life.world.ledger.store run = some record := (hfound _ rfl).symm
    cases happly : action.apply record with
    | error error =>
        refine .answers (.error error) ?_
        rw [RecoveryAction.proceed, happly]
        rfl
    | ok changed =>
        have hid : changed.id = run :=
          (RecoveryAction.apply_id happly).trans (RunStore.id_of_lookup hrecord)
        refine .writes action run changed ?_ ?_
        · rw [RecoveryAction.proceed, happly]
        · rw [hid]
          exact h.older hlife hrecord (RecoveryAction.apply_held happly)

/-- The end of a handler wakes the worker, or there is nothing left to do. -/
theorem finish_poised {action : RecoveryAction}
    (hstep : Interaction.Step (unattended noDefect) (action.finish, life.world)
      (program', world)) :
    world.ledger = life.world.ledger ∧ life.Poised program' := by
  have hwakes : action.finish = .request .recoveryResume (fun _ => .pure (.ok ())) →
      world.ledger = life.world.ledger ∧ life.Poised program' := by
    intro hfinish
    rw [hfinish] at hstep
    cases hstep with
    | drift hdrift => exact ⟨hdrift.1, .finishes action hfinish.symm⟩
    | answer hanswer => exact ⟨hanswer.1.1, .answers _ rfl⟩
  cases action with
  | confirmCleanup => exact absurd hstep not_step_pure
  | continueAfterCleanup => exact hwakes rfl
  | retryCompletion => exact hwakes rfl
  | acceptCoordinatorResult => exact hwakes rfl

/-- One step of a handler. -/
theorem Poised.step (h : life.Poised program) (horderly : life.Orderly)
    (hlife : life.episode.Spoken ext)
    (hstep : Interaction.Step (unattended noDefect) (program, life.world) (program', world)) :
    life.Amended world.ledger ∧ life.Poised program' := by
  cases h with
  | reads action run hprogram =>
      subst hprogram
      cases hstep with
      | drift hdrift => exact ⟨Or.inl hdrift.1, .reads action run rfl⟩
      | answer hanswer =>
          exact ⟨Or.inl hanswer.1.1.1, horderly.proceed_poised hlife hanswer.1.1.2⟩
  | writes action run changed hprogram hchanged =>
      subst hprogram
      cases hstep with
      | drift hdrift => exact ⟨Or.inl hdrift.1, .writes action run changed rfl hchanged⟩
      | @answer _ _ _ saved _ hanswer =>
          obtain ⟨hsaves, hpreflight⟩ := hanswer.1.1
          refine ⟨?_, ?_⟩
          · rcases Ledger.saves_cases hsaves hpreflight with ⟨hsame, _⟩ | hwritten
            · exact Or.inl hsame
            · exact Or.inr ⟨changed, hchanged, hwritten⟩
          · cases saved with
            | error error => exact .answers _ rfl
            | ok done => exact .finishes action rfl
  | finishes action hprogram =>
      subst hprogram
      obtain ⟨hsame, hpoised⟩ := finish_poised hstep
      exact ⟨Or.inl hsame, hpoised⟩
  | answers answer hprogram =>
      subst hprogram
      exact absurd hstep not_step_pure

end Life

namespace Office

/-- An orderly life, and handlers that write older records. -/
structure Orderly (office : Office) : Prop where
  life : office.life.Orderly
  handlers : ∀ handler ∈ office.handlers, office.life.Poised handler.program

theorem Step.orderly (h : Step ext office later) (hspoken : office.life.episode.Spoken ext)
    (horderly : office.Orderly) : later.Orderly := by
  obtain ⟨hlife, hhandlers⟩ := horderly
  cases h with
  | live hlive =>
      refine ⟨hlive.orderly hspoken hlife, fun handler hhandler => ?_⟩
      exact (hhandlers handler hhandler).mono fun _ holder => holder.step hlive
  | arrive =>
      refine ⟨hlife, fun handler hhandler => ?_⟩
      rcases List.mem_cons.mp hhandler with rfl | hearlier
      · exact .reads _ _ rfl
      · exact hhandlers handler hearlier
  | @handle life earlier rest handler program world hstep =>
      have hpoised := hhandlers handler (List.mem_append_right _ (List.mem_cons_self ..))
      obtain ⟨hamended, hnext⟩ := hpoised.step hlife hspoken hstep
      refine ⟨hlife.amended hamended, fun other hother => ?_⟩
      rcases List.mem_append.mp hother with hbefore | hafter
      · exact (hhandlers other (List.mem_append_left _ hbefore)).amended hamended
      · rcases List.mem_cons.mp hafter with rfl | hrest
        · exact hnext.amended hamended
        · have hmem := List.mem_append_right earlier (List.mem_cons_of_mem handler hrest)
          exact (hhandlers other hmem).amended hamended
  | restart =>
      refine ⟨Life.Step.restart.orderly hspoken hlife, fun handler hhandler => ?_⟩
      have hmem := List.mem_of_mem_filter hhandler
      exact (hhandlers handler hmem).mono fun _ holder => holder.restarted

theorem Reachable.orderly (h : office.Reachable ext) : office.Orderly := by
  obtain ⟨deployment, hruns⟩ := h
  induction hruns with
  | refl => exact ⟨Life.orderly_start, fun _ hhandler => absurd hhandler List.not_mem_nil⟩
  | @tail middle _ hmiddle hstep ih =>
      have hreached : middle.Reachable ext := ⟨deployment, hmiddle⟩
      exact hstep.orderly ⟨_, hreached.crowded.spoken, rfl⟩ ih

end Office

end

end PackageHarness
