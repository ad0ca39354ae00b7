/-
# PackageHarness.System.Postponement — recovery actions can wait.

In a machine, operators act only while the worker holds no copy of a record. Here they act at any
moment, each action as one step, and it makes no difference to the worker: what an action changes
under a copy is either written over with the copy or still there when the worker looks again. So
every life with such operators has a machine next to it in which the actions have been postponed.
-/
import PackageHarness.Protocol.Runs
import PackageHarness.System.Life

namespace PackageHarness

open Interaction Relation

/-- Operators who act at any moment, each action as one step, next to the tasks of the process. -/
def atomicOperators : Company where
  surroundings := unattended noDefect
  outside := fun _ world after => world.Operates after ∨ world.Stirs after

variable {ext : Externals} {avoided : Defect → Prop}

/-! ## Actions that are still to come -/

theorem RecoveryAction.apply_held {action : RecoveryAction} {record changed : RunRecord}
    (h : action.apply record = .ok changed) : record.worker.manualRecovery.isSome := by
  have hheld : ∀ {kind}, record.worker.manualRecoveryKind = some kind →
      record.worker.manualRecovery.isSome := by
    intro kind hkind
    unfold WorkerState.manualRecoveryKind at hkind
    cases hhold : record.worker.manualRecovery with
    | none => simp [hhold] at hkind
    | some hold => rfl
  cases action with
  | continueAfterCleanup => exact (acknowledgeCleanupRecovery_eq_ok h).2.1
  | confirmCleanup => exact (confirmManualCleanup_eq_ok h).2.1
  | retryCompletion => exact hheld (resolveCompletionConflict_eq_ok h).2.1
  | acceptCoordinatorResult => exact hheld (resolveCompletionConflict_eq_ok h).2.1

theorem RunStore.write_write {store : RunStore} {record changed : RunRecord}
    (h : changed.id = record.id) : (store.write changed).write record = store.write record := by
  unfold write
  simp [List.filter_append, List.filter_filter, h]

namespace Ledger

variable {ledger later after : Ledger} {record : RunRecord}

/-- One recovery action, stored or not. -/
def Operated (ledger after : Ledger) : Prop :=
  ∃ action run answer, ledger.Operates action run answer after

/-- Some recovery actions lead from this ledger to a later one. -/
def Behind : Ledger → Ledger → Prop := ReflTransGen Operated

/-- An action changes a record that is on hold, or nothing. -/
theorem Operated.cases (h : ledger.Operated after) :
    ∃ record changed, ledger.store record.id = some record ∧
      record.worker.manualRecovery.isSome ∧ changed.id = record.id ∧
      (after = ledger ∨ after = ledger.write changed) := by
  obtain ⟨action, run, answer, record, changed, saved, hrun, happly, hsaves, hpreflight, _⟩ := h
  have hid := RunStore.id_of_lookup hrun
  refine ⟨record, changed, hid ▸ hrun, RecoveryAction.apply_held happly,
    RecoveryAction.apply_id happly, ?_⟩
  rcases saves_cases hsaves hpreflight with ⟨hsame, _⟩ | hwritten
  · exact Or.inl hsame
  · exact Or.inr hwritten

theorem Operated.consistent (h : ledger.Operated after)
    (hinv : ledger.Consistent ext avoided) : after.Consistent ext avoided := by
  obtain ⟨action, run, answer, hoperates⟩ := h
  exact (Follows.operate hinv hoperates).consistent

theorem Behind.consistent (h : ledger.Behind later) (hinv : ledger.Consistent ext avoided) :
    later.Consistent ext avoided := by
  induction h with
  | refl => exact hinv
  | tail _ hstep ih => exact hstep.consistent ih

/-- A job on hold holds its claim. -/
theorem Consistent.token_of_held (h : ledger.Consistent ext avoided)
    (hrecord : ledger.store record.id = some record)
    (hheld : record.worker.manualRecovery.isSome) : record.worker.claimToken.isSome := by
  by_cases htoken : record.worker.claimToken = none
  · have hnone : record.worker.manualRecovery = none := ((h.sound hrecord).quiet htoken).2
    rw [hnone] at hheld
    cases hheld
  · exact Option.isSome_iff_ne_none.mpr htoken

/-- On a quiet ledger there is nothing to act on. -/
theorem Behind.of_quiet (h : ledger.Behind later) (hinv : ledger.Consistent ext avoided)
    (hquiet : ledger.Quiet) : later = ledger := by
  rcases ReflTransGen.cases_head h with rfl | ⟨after, hstep, _⟩
  · rfl
  · obtain ⟨record, changed, hrecord, hheld, _⟩ := hstep.cases
    have htoken := hinv.token_of_held hrecord hheld
    rw [hquiet record.id record hrecord] at htoken
    cases htoken

theorem Operated.store_of_unheld (h : ledger.Operated after) {run : RunId}
    (hunheld : ledger.Unheld run) : after.store run = ledger.store run := by
  obtain ⟨record, changed, hrecord, hheld, hid, rfl | rfl⟩ := h.cases
  · rfl
  · refine RunStore.write_of_ne _ _ fun hrun => ?_
    subst hrun
    rw [hunheld record (hid ▸ hrecord)] at hheld
    cases hheld

/-- No action touches a job that is not on hold. -/
theorem Behind.store_of_unheld (h : ledger.Behind later) {run : RunId}
    (hunheld : ledger.Unheld run) : later.store run = ledger.store run := by
  induction h with
  | refl => rfl
  | @tail middle after _ hstep ih =>
      have hmiddle : middle.Unheld run := fun record hrecord => hunheld record (ih ▸ hrecord)
      exact (hstep.store_of_unheld hmiddle).trans ih

theorem Behind.preflight (h : ledger.Behind later) : later.preflight = ledger.preflight := by
  induction h with
  | refl => rfl
  | tail _ hstep ih =>
      obtain ⟨_, _, _, _, _, _, _, _, _, hpreflight, _⟩ := hstep
      exact hpreflight.trans ih

/-- An inventory can be noted before or after. -/
theorem Behind.note (h : ledger.Behind later) {run : RunId} {packages : List PackageSummary} :
    (ledger.noteInventory run packages).Behind (later.noteInventory run packages) := by
  unfold Behind at h ⊢
  refine h.lift (fun ledger => ledger.noteInventory run packages) ?_
  rintro before after ⟨action, operated, answer, record, changed, saved, hrun, happly, hsaves,
    hpreflight, hanswer⟩
  refine ⟨action, operated, answer, record, changed, saved, hrun, happly, hsaves, ?_, hanswer⟩
  show Function.update after.preflight run _ = Function.update before.preflight run _
  rw [hpreflight]

/-- Writing the only record that can be on hold undoes the actions. -/
theorem Behind.write (h : ledger.Behind later) (hinv : ledger.Consistent ext avoided)
    (hothers : ledger.QuietExcept record.id) : later.write record = ledger.write record := by
  unfold Behind at h
  induction h using ReflTransGen.head_induction_on with
  | refl => rfl
  | @head before middle hstep _ ih =>
      have hmiddle := hstep.consistent hinv
      obtain ⟨held, changed, hrecord, hheld, hid, rfl | rfl⟩ := hstep.cases
      · exact ih hinv hothers
      · have hsame : held.id = record.id := by
          by_contra hne
          have htoken := hinv.token_of_held hrecord hheld
          rw [hothers held.id held hrecord hne] at htoken
          cases htoken
        have hothers' : (before.write changed).QuietExcept record.id := by
          intro other found hfound hne
          rcases write_store_cases hfound with ⟨rfl, _⟩ | ⟨_, hold⟩
          · exact absurd (hid.trans hsame) hne
          · exact hothers other found hold hne
        rw [ih hmiddle hothers']
        show ({ before with store := (before.store.write changed).write record } : Ledger) = _
        rw [RunStore.write_write (hid.trans hsame)]
        rfl

/-- What the worker is answered while it holds a copy, it can be answered before the actions. -/
theorem Behind.answers (h : ledger.Behind later) (hinv : ledger.Consistent ext avoided)
    {request : WorkerRequest} (hheld : request.holdsCopy = true)
    (hpermits : ledger.Permits ext avoided request) {answer : request.Answer} {later' : Ledger}
    (hanswers : later.Answers request answer later') :
    ∃ after, ledger.Answers request answer after ∧ after.Behind later' := by
  cases request with
  | runner run request =>
      cases request with
      | save site record =>
          obtain ⟨hid, _, hothers⟩ := hpermits
          obtain ⟨hsaves, hpreflight⟩ := hanswers
          rcases saves_cases hsaves hpreflight with ⟨rfl, error, rfl⟩ | rfl
          · exact ⟨ledger, ⟨Or.inl rfl, rfl⟩, h⟩
          · refine ⟨ledger.write record, ⟨?_, rfl⟩, ?_⟩
            · cases answer with
              | error error => exact Or.inr rfl
              | ok value => rfl
            · rw [h.write hinv (hid ▸ hothers)]
              exact .refl
      | get id =>
          obtain ⟨rfl, hfound⟩ := hanswers
          refine ⟨ledger, ⟨rfl, fun found hok => ?_⟩, h⟩
          rw [hfound found hok]
          exact h.store_of_unheld hpermits
      | pm call =>
          by_cases hpreflight : call = .listPackages .preflight
          · subst hpreflight
            rcases answer with error | packages
            · cases hanswers
              exact ⟨ledger, rfl, h⟩
            · cases hanswers
              exact ⟨ledger.noteInventory run packages, rfl, h.note⟩
          · have hsame : ∀ {before after : Ledger},
                before.RunnerAnswers run (.pm call) answer after ↔ after = before := by
              intro before after
              cases call with
              | listPackages purpose =>
                  cases purpose with
                  | preflight => exact absurd rfl hpreflight
                  | _ => exact Iff.rfl
              | _ => exact Iff.rfl
            cases hsame.mp hanswers
            exact ⟨ledger, hsame.mpr rfl, h⟩
      | _ =>
          cases hanswers
          exact ⟨ledger, rfl, h⟩
  | create record =>
      obtain ⟨hquiet, _⟩ := hpermits
      rw [h.of_quiet hinv hquiet] at hanswers
      exact ⟨later', hanswers, .refl⟩
  | loadAll => cases hheld
  | _ =>
      cases hanswers
      exact ⟨ledger, rfl, h⟩

end Ledger

/-! ## Worlds in which they are still to come -/

/-- Other tasks lead from these cells to the later ones. -/
def Process.Behind : Process → Process → Prop := ReflTransGen Process.Moves

structure World.Behind (world later : World) : Prop where
  ledger : world.ledger.Behind later.ledger
  process : world.process.Behind later.process

namespace World

variable {world later after : World}

theorem Behind.refl (world : World) : world.Behind world := ⟨.refl, .refl⟩

theorem Behind.stirs (h : world.Behind later) (hstirs : later.Stirs after) :
    world.Behind after := by
  obtain ⟨hledger, hprocess⟩ := h
  obtain ⟨hsame, hmoves⟩ := hstirs
  exact ⟨hsame ▸ hledger, hprocess.tail hmoves⟩

theorem Behind.operates (h : world.Behind later) (hoperates : later.Operates after) :
    world.Behind after := by
  obtain ⟨hledger, hprocess⟩ := h
  cases hoperates with
  | @accepted action run ledger hoperates =>
      refine ⟨hledger.tail ⟨action, run, _, hoperates⟩, ?_⟩
      cases action.resumesWorker with
      | false =>
          rw [Bool.or_false]
          exact hprocess
      | true =>
          rw [Bool.or_true]
          exact hprocess.tail .permit
  | @failed action run error ledger hoperates =>
      exact ⟨hledger.tail ⟨action, run, _, hoperates⟩, hprocess⟩

end World

/-! ## Catching up -/

namespace Machine

variable {request : WorkerRequest} {next : request.Answer → Worker Unit} {world later : World}

theorem Runs.stirred {ledger : Ledger} {process process' : Process}
    (h : process.Behind process') :
    Runs ext noDefect (.request request next, ⟨ledger, process⟩)
      (.request request next, ⟨ledger, process'⟩) := by
  unfold Process.Behind at h
  induction h with
  | refl => exact .refl
  | tail _ hmoves ih => exact ih.tail (.work (.drift (Or.inl ⟨rfl, hmoves⟩)))

/-- The missing actions are ones that failed to be reported, so that none gives a permit. -/
theorem Runs.operated {ledger ledger' : Ledger} {process : Process}
    (h : ledger.Behind ledger') (hfree : request.holdsCopy = false) :
    Runs ext noDefect (.request request next, ⟨ledger, process⟩)
      (.request request next, ⟨ledger', process⟩) := by
  unfold Ledger.Behind at h
  induction h with
  | refl => exact .refl
  | @tail middle after _ hstep ih =>
      refine ih.tail (.work (.drift (Or.inr ⟨hfree, ?_⟩)))
      obtain ⟨action, run, answer, record, changed, saved, hrun, happly, hsaves, hpreflight, _⟩ :=
        hstep
      let error : StoreError := .io "directory sync failed"
      have hunreported : middle.store.Saves changed (.error error) after.store := by
        rcases saved with _ | _
        · exact hsaves
        · exact Or.inr hsaves
      have hoperates : middle.Operates action run (.error (.store error.toText)) after :=
        ⟨record, changed, .error error, hrun, happly, hunreported, hpreflight, rfl⟩
      exact World.Operates.failed hoperates

end Machine

namespace Life

variable {life after : Life} {world : World}

/-- A step of a life is some steps of the machine next to it. -/
theorem Step.postponed (h : Step ext atomicOperators life after)
    (hmachine : Machine.Reachable ext noDefect (life.worker, world))
    (hbehind : world.Behind life.world) :
    ∃ world', Machine.Runs ext noDefect (life.worker, world) (after.worker, world') ∧
      world'.Behind after.world := by
  cases h with
  | @answer past deployment chronicle request next later answer later' hanswer =>
      obtain ⟨ledger, process⟩ := world
      have hstirred : Machine.Runs ext noDefect (.request request next, ⟨ledger, process⟩)
          (.request request next, ⟨ledger, later.process⟩) := .stirred hbehind.process
      obtain ⟨⟨hanswers, havoids⟩, hprocess⟩ := hanswer
      by_cases hheld : request.holdsCopy = true
      · have hreached := hmachine.runs hstirred
        have hpermits : ledger.Permits ext noDefect request := hreached.permits ⟨next, rfl⟩
        obtain ⟨after, hafter, hbehind'⟩ :=
          hbehind.ledger.answers hreached.consistent hheld hpermits hanswers
        refine ⟨⟨after, later'.process⟩, hstirred.tail (.work (.answer ?_)), hbehind', .refl⟩
        exact ⟨⟨hafter, fun _ hnone => hnone.elim⟩, hprocess⟩
      · have hfree : request.holdsCopy = false := by simpa using hheld
        have hoperated : Machine.Runs ext noDefect
            (.request request next, ⟨ledger, later.process⟩) (.request request next, later) :=
          .operated hbehind.ledger hfree
        refine ⟨later', (hstirred.trans hoperated).tail (.work (.answer ?_)), .refl _⟩
        exact ⟨⟨hanswers, havoids⟩, hprocess⟩
  | drift hdrift => exact ⟨world, .refl, hbehind.stirs hdrift⟩
  | unroll => exact ⟨world, ReflTransGen.single (.work .unroll), hbehind⟩
  | outside hmoves =>
      rcases hmoves with hoperates | hstirs
      · exact ⟨world, .refl, hbehind.operates hoperates⟩
      · exact ⟨world, .refl, hbehind.stirs hstirs⟩
  | restart =>
      exact ⟨world.restarted, ReflTransGen.single .restart, hbehind.ledger, .refl⟩

/-- Next to every life there is a machine whose operators have waited. -/
theorem Reachable.postponed (h : Reachable ext atomicOperators life) :
    ∃ world, Machine.Reachable ext noDefect (life.worker, world) ∧ world.Behind life.world := by
  obtain ⟨deployment, hruns⟩ := h
  induction hruns with
  | refl => exact ⟨.initial, ⟨deployment, .refl⟩, .refl _⟩
  | tail _ hstep ih =>
      obtain ⟨world, hmachine, hbehind⟩ := ih
      obtain ⟨world', hruns, hbehind'⟩ := hstep.postponed hmachine hbehind
      exact ⟨world', hmachine.runs hruns, hbehind'⟩

end Life

end PackageHarness
