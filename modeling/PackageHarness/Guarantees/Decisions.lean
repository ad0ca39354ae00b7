/-
# PackageHarness.Guarantees.Decisions — an operator's decision lasts unless a stale copy undoes it.

A handler and the worker write whole records. While the worker redelivers a completion under a hold,
it works on the copy that it loaded at the restart, and its next save undoes whatever an operator
decided in between. Where every handler writes while the worker holds no copy, and a change of the
record that is still the durable one, each decision lasts in every later state.
-/
import PackageHarness.Guarantees.Holds
import PackageHarness.System.Interleaving

namespace PackageHarness

open Interaction Relation

/-- What an action that succeeded leaves behind for good. A retried completion stays stored until it
is acknowledged. -/
def RecoveryAction.Lasts : RecoveryAction → RunRecord → Prop
  | .continueAfterCleanup, record | .confirmCleanup, record => record.cleanup.status = .passed
  | .retryCompletion, record =>
      record.worker.pendingCompletionBody.isSome = true ∨
        record.worker.completionAcknowledged = true
  | .acceptCoordinatorResult, record =>
      record.worker.completionAcknowledged = true ∧ record.worker.claimToken = none ∧
        record.worker.pendingCompletionBody = none ∧ record.worker.manualRecovery = none

theorem RecoveryAction.apply_lasts {action : RecoveryAction} {record changed : RunRecord}
    (h : action.apply record = .ok changed) : action.Lasts changed := by
  cases action with
  | continueAfterCleanup =>
      rw [(acknowledgeCleanupRecovery_eq_ok h).1]
      rfl
  | confirmCleanup =>
      rw [(confirmManualCleanup_eq_ok h).1]
      rfl
  | retryCompletion =>
      obtain ⟨hchanged, _, _, hbody⟩ := resolveCompletionConflict_eq_ok h
      rw [hchanged]
      exact Or.inl hbody
  | acceptCoordinatorResult =>
      rw [(resolveCompletionConflict_eq_ok h).1]
      exact ⟨rfl, rfl, rfl, rfl⟩

theorem RecoveryAction.Lasts.persisted {action : RecoveryAction} {record : RunRecord}
    (h : action.Lasts record) : action.Lasts record.persisted := by
  cases action <;> exact h

theorem RecoveryAction.Lasts.evolves {ext : Externals} {avoided : Defect → Prop}
    {preflight : RunId → Option (List PackageSummary)} {action : RecoveryAction}
    {old new : RunRecord} (h : action.Lasts old) (hevolves : old.job.Evolves avoided new.job)
    (hsound : new.job.Sound ext avoided preflight) : action.Lasts new := by
  cases action with
  | continueAfterCleanup => exact hevolves.passed h
  | confirmCleanup => exact hevolves.passed h
  | retryCompletion =>
      rcases h with hbody | hacknowledged
      · obtain ⟨body, hbody⟩ := Option.isSome_iff_exists.mp hbody
        rcases hevolves.body body hbody with hkept | hacknowledged
        · exact Or.inl (Option.isSome_iff_exists.mpr ⟨body, hkept⟩)
        · exact Or.inr hacknowledged
      · exact Or.inr (hevolves.acknowledged hacknowledged)
  | acceptCoordinatorResult =>
      obtain ⟨hacknowledged, htoken, _, _⟩ := h
      have htoken' : new.worker.claimToken = none := hevolves.token htoken
      obtain ⟨hbody, hhold⟩ := hsound.quiet htoken'
      exact ⟨hevolves.acknowledged hacknowledged, htoken', hbody, hhold⟩

namespace Handler

variable {ext : Externals} {avoided : Defect → Prop} {handler : Handler} {ledger after : Ledger}

/-- The action's effect is durable. -/
def Lasts (handler : Handler) (ledger : Ledger) : Prop :=
  ∃ record, ledger.store handler.run = some record ∧ handler.action.Lasts record

theorem Lasts.evolves (h : handler.Lasts ledger) (hevolves : ledger.Evolves avoided after)
    (hconsistent : after.Consistent ext avoided) : handler.Lasts after := by
  obtain ⟨record, hrecord, hlasts⟩ := h
  obtain ⟨record', hrecord', hjob⟩ := hevolves.store hrecord
  exact ⟨record', hrecord', hlasts.evolves hjob (hconsistent.sound hrecord')⟩

/-- Where a handler can stand. -/
inductive Stage (ledger : Ledger) (handler : Handler) : Prop
  | reads : handler.program = handler.action.handle handler.run → Stage ledger handler
  | writes (changed : RunRecord) :
      handler.program = handler.action.store handler.run changed → Stage ledger handler
  | finishes : handler.program = handler.action.finish → handler.Lasts ledger →
      Stage ledger handler
  | answers {answer : Except OperatorRecoveryError Unit} : handler.program = .pure answer →
      (answer = .ok () → handler.Lasts ledger) → Stage ledger handler

theorem Stage.evolves (h : handler.Stage ledger) (hevolves : ledger.Evolves avoided after)
    (hconsistent : after.Consistent ext avoided) : handler.Stage after := by
  cases h with
  | reads hprogram => exact .reads hprogram
  | writes changed hprogram => exact .writes changed hprogram
  | finishes hprogram hlasts => exact .finishes hprogram (hlasts.evolves hevolves hconsistent)
  | answers hprogram hlasts =>
      exact .answers hprogram fun hok => (hlasts hok).evolves hevolves hconsistent

/-- The record that a handler writes is its change of the durable one. -/
def WritesCurrent (handler : Handler) (ledger : Ledger) : Prop :=
  ∀ run site changed next, handler.program = .request (.runner run (.save site changed)) next →
    ∃ current, ledger.store handler.run = some current ∧
      handler.action.apply current = .ok changed

/-- The handler is about to write. -/
def Writes (handler : Handler) : Prop :=
  ∃ run site changed next, handler.program = .request (.runner run (.save site changed)) next

/-- A step of a handler leaves the ledger alone, or is the action as one step. -/
def Effect (handler : Handler) (ledger after : Ledger) : Prop :=
  after = ledger ∨
    handler.Writes ∧ ∃ answer, ledger.Operates handler.action handler.run answer after

section Steps

variable {world world' : World} {program : Worker (Except OperatorRecoveryError Unit)}

theorem Stage.step_read
    (hstep : Interaction.Step (unattended noDefect)
      (handler.action.handle handler.run, world) (program, world')) :
    handler.Effect world.ledger world'.ledger ∧ (handler.goesOn program).Stage world'.ledger := by
  cases hstep with
  | drift hdrift => exact ⟨Or.inl hdrift.1, .reads rfl⟩
  | @answer _ _ _ found _ hanswer =>
      refine ⟨Or.inl hanswer.1.1.1, ?_⟩
      rcases handler.action.proceed_cases handler.run found with ⟨error, hfailed⟩ | ⟨changed, hok⟩
      · exact .answers hfailed fun h => by cases h
      · exact .writes changed hok

theorem Stage.step_write {changed : RunRecord}
    (hprogram : handler.program = handler.action.store handler.run changed)
    (hwrites : ∃ current, world.ledger.store handler.run = some current ∧
      handler.action.apply current = .ok changed)
    (hstep : Interaction.Step (unattended noDefect)
      (handler.action.store handler.run changed, world) (program, world')) :
    handler.Effect world.ledger world'.ledger ∧ (handler.goesOn program).Stage world'.ledger := by
  cases hstep with
  | drift hdrift => exact ⟨Or.inl hdrift.1, .writes changed rfl⟩
  | @answer _ _ _ saved _ hanswer =>
      obtain ⟨current, hcurrent, happly⟩ := hwrites
      obtain ⟨hsaves, hpreflight⟩ := hanswer.1.1
      refine ⟨Or.inr ⟨⟨_, _, _, _, hprogram⟩, _, current, changed, saved, hcurrent, happly, hsaves,
        hpreflight, rfl⟩, ?_⟩
      cases saved with
      | error error => exact .answers rfl fun h => by cases h
      | ok done =>
          -- what is stored is the change of the handler's own record
          have hid : changed.id = handler.run :=
            (RecoveryAction.apply_id happly).trans (RunStore.id_of_lookup hcurrent)
          have hstored : world'.ledger.store handler.run = some changed.persisted := by
            rw [show world'.ledger.store = world.ledger.store.write changed from hsaves, ← hid]
            exact RunStore.write_same _ _
          exact .finishes rfl ⟨_, hstored, (RecoveryAction.apply_lasts happly).persisted⟩

/-- Waking the worker does not touch the ledger. -/
theorem step_resume {next : Unit → Worker (Except OperatorRecoveryError Unit)}
    (hstep : Interaction.Step (unattended noDefect) (.request .recoveryResume next, world)
      (program, world')) :
    world'.ledger = world.ledger ∧
      (program = .request .recoveryResume next ∨ program = next ()) := by
  cases hstep with
  | drift hdrift => exact ⟨hdrift.1, Or.inl rfl⟩
  | answer hanswer => exact ⟨hanswer.1.1, Or.inr rfl⟩

theorem Stage.step_finish (hlasts : handler.Lasts world.ledger)
    (hstep : Interaction.Step (unattended noDefect)
      (handler.action.finish, world) (program, world')) :
    handler.Effect world.ledger world'.ledger ∧ (handler.goesOn program).Stage world'.ledger := by
  have hresumed : handler.action.finish = .request .recoveryResume (fun _ => .pure (.ok ())) →
      handler.Effect world.ledger world'.ledger ∧
        (handler.goesOn program).Stage world'.ledger := by
    intro hfinish
    rw [hfinish] at hstep
    obtain ⟨hsame, hprogram⟩ := step_resume hstep
    have hlasts' : handler.Lasts world'.ledger := by
      rw [hsame]
      exact hlasts
    refine ⟨Or.inl hsame, ?_⟩
    rcases hprogram with rfl | rfl
    · exact .finishes hfinish.symm hlasts'
    · exact .answers rfl fun _ => hlasts'
  cases haction : handler.action with
  | confirmCleanup =>
      rw [haction] at hstep
      exact absurd hstep not_step_pure
  | continueAfterCleanup => exact hresumed (by rw [haction]; rfl)
  | retryCompletion => exact hresumed (by rw [haction]; rfl)
  | acceptCoordinatorResult => exact hresumed (by rw [haction]; rfl)

/-- What one step of a handler does, from each of its stages. -/
theorem Stage.step (h : handler.Stage world.ledger) (hwrites : handler.WritesCurrent world.ledger)
    (hstep : Interaction.Step (unattended noDefect) (handler.program, world) (program, world')) :
    handler.Effect world.ledger world'.ledger ∧ (handler.goesOn program).Stage world'.ledger := by
  cases h with
  | reads hprogram =>
      rw [hprogram] at hstep
      exact step_read hstep
  | writes changed hprogram =>
      have hcurrent := hwrites _ _ _ _ hprogram
      rw [hprogram] at hstep
      exact step_write hprogram hcurrent hstep
  | finishes hprogram hlasts =>
      rw [hprogram] at hstep
      exact step_finish hlasts hstep
  | answers hprogram hlasts =>
      rw [hprogram] at hstep
      exact absurd hstep not_step_pure

end Steps

end Handler

theorem Handler.Stage.lasts_of_succeeded {handler : Handler} {ledger : Ledger}
    (h : handler.Stage ledger) (hdone : handler.succeeded = true) : handler.Lasts ledger := by
  unfold succeeded at hdone
  cases h with
  | reads hprogram =>
      rw [hprogram] at hdone
      cases hdone
  | writes changed hprogram =>
      rw [hprogram] at hdone
      cases hdone
  | finishes hprogram hlasts => exact hlasts
  | @answers answer hprogram hlasts =>
      rw [hprogram] at hdone
      cases answer with
      | error error => cases hdone
      | ok done => exact hlasts rfl

/-! ## Runs in which every handler writes undisturbed -/

/-- A recovery action on the ledger is one on the world, up to the permit. -/
theorem World.operates_of_ledger {world : World} {action : RecoveryAction} {run : RunId}
    {answer : Except OperatorRecoveryError Unit} {ledger : Ledger}
    (h : world.ledger.Operates action run answer ledger) :
    ∃ after, world.Operates after ∧ after.ledger = ledger := by
  rcases answer with error | done
  · exact ⟨_, .failed h, rfl⟩
  · exact ⟨_, .accepted h, rfl⟩

namespace Site

variable {ext : Externals} {site site' : Site}

/-- The worker is in the hands of the protocol, and every handler is at one of its stages. -/
structure Orderly (ext : Externals) (site : Site) : Prop where
  lawful : Machine.Lawful ext noDefect site.machine
  stages : ∀ handler ∈ site.handlers, handler.Stage site.world.ledger

theorem start_orderly (deployment : Deployment) : Orderly ext (start ext deployment) where
  lawful := Machine.start_lawful deployment
  stages := fun _ h => by cases h

/-- Stages last through every move of the ledger that the protocol makes. -/
theorem Orderly.evolves (h : Orderly ext site) {machine : Machine}
    (hlawful : Machine.Lawful ext noDefect machine)
    (hevolves : site.world.ledger.Evolves noDefect machine.2.ledger) :
    Orderly ext (site.withMachine machine) where
  lawful := hlawful
  stages := fun handler hmem => (h.stages handler hmem).evolves hevolves hlawful.inv

/-- The effect of a handler that writes undisturbed is a step of the machine. -/
theorem Orderly.effect (h : Orderly ext site) {handler : Handler} {world : World}
    (hundisturbed : site.undisturbed handler)
    (heffect : handler.Effect site.world.ledger world.ledger) :
    Machine.Lawful ext noDefect (site.worker, world) ∧
      site.world.ledger.Evolves noDefect world.ledger := by
  show Safe _ _ site.worker world.ledger ∧ _
  rcases heffect with hsame | ⟨⟨run, at_, changed, next, hprogram⟩, answer, hoperates⟩
  · rw [hsame]
    exact ⟨h.lawful, .refl _⟩
  · -- the worker holds no copy, so the write is one that an operator may make there
    obtain ⟨hfree, _⟩ := hundisturbed run at_ changed next hprogram
    obtain ⟨world', hworld', hledger⟩ := World.operates_of_ledger hoperates
    have hstep : Machine.Step ext noDefect site.machine (site.worker, world') := by
      rcases hfree with ⟨request, next, hworker, hcopy⟩ | hworker
      · rw [machine, hworker]
        exact .work (.drift (Or.inr ⟨hcopy, hworld'⟩))
      · rw [machine, hworker]
        exact .operate hworld'
    rw [← hledger]
    exact hstep.lawful h.lawful

/-- One step of one party keeps the site orderly. -/
theorem Step.orderly (horderly : Orderly ext site) (h : Step ext undisturbed site site') :
    Orderly ext site' := by
  cases h with
  | @work worker world hstep =>
      have hwork : Machine.Step ext noDefect site.machine (worker, world) :=
        .work (hstep.mono (fun _ _ _ _ h => h) fun _ _ _ h => Or.inl h)
      obtain ⟨hlawful, hevolves⟩ := hwork.lawful horderly.lawful
      exact horderly.evolves hlawful hevolves
  | @arrive action run =>
      refine ⟨horderly.lawful, ?_⟩
      intro handler hmem
      rcases List.mem_cons.mp hmem with rfl | hmem
      · exact .reads rfl
      · exact horderly.stages handler hmem
  | @handle earlier later handler program world hlisted hundisturbed hstep =>
      have hmem : handler ∈ site.handlers := by simp [hlisted]
      have hwrites : handler.WritesCurrent site.world.ledger :=
        fun run at_ changed next hprogram => (hundisturbed run at_ changed next hprogram).2
      obtain ⟨heffect, hstage⟩ := (horderly.stages handler hmem).step hwrites hstep
      obtain ⟨hlawful, hevolves⟩ := horderly.effect hundisturbed heffect
      refine ⟨hlawful, ?_⟩
      intro other hother
      -- the handler that moved is at its next stage, the others stay at theirs
      rcases List.mem_append.mp hother with hearlier | hrest
      · exact (horderly.stages other (by simp [hlisted, hearlier])).evolves hevolves hlawful.inv
      · rcases List.mem_cons.mp hrest with rfl | hlater
        · exact hstage
        · exact (horderly.stages other (by simp [hlisted, hlater])).evolves hevolves hlawful.inv
  | @restart deployment =>
      have hrestart : Machine.Step ext noDefect site.machine
          (Worker.run ext deployment, site.world.restarted) := .restart
      refine ⟨(hrestart.lawful horderly.lawful).1, ?_⟩
      -- only handlers that have answered outlive the process
      intro handler hmem
      exact horderly.stages handler (List.mem_filter.mp hmem).1

/-- What every step keeps, every run keeps. -/
theorem Reachable.orderly (h : Reachable ext undisturbed site) : Orderly ext site := by
  obtain ⟨deployment, hruns⟩ := h
  induction hruns with
  | refl => exact start_orderly deployment
  | tail _ hstep ih => exact hstep.orderly ih

/-- A decision that succeeded is durable in every later state, and after the acceptance of the
coordinator's result no completion of the run is sent. -/
theorem decisions_last (h : Reachable ext undisturbed site) {handler : Handler}
    (hmem : handler ∈ site.handlers) (hdone : handler.succeeded = true) :
    (∃ record, site.machine.Durable handler.run record ∧ handler.action.Lasts record) ∧
    (handler.action = .acceptCoordinatorResult →
      ∀ body, ¬ site.machine.Requests (.completeRaw handler.run body)) := by
  have horderly := h.orderly
  obtain ⟨record, hrecord, hlasts⟩ := (horderly.stages handler hmem).lasts_of_succeeded hdone
  refine ⟨⟨record, hrecord, hlasts⟩, ?_⟩
  intro haccepted body hsend
  -- a body is sent only while it is durable, and an accepted record has none
  obtain ⟨next, hnext⟩ := hsend
  obtain ⟨record', hrecord', hbody⟩ := (horderly.lawful _ _ .refl).2.1 _ next hnext
  have hsame : record' = record := Option.some.inj (hrecord'.symm.trans hrecord)
  subst hsame
  rw [haccepted] at hlasts
  obtain ⟨_, _, hnone, _⟩ := hlasts
  rw [hnone] at hbody
  cases hbody

theorem Step.answered {admits : Site → Handler → Prop} {worker : Worker Unit}
    {world world' : World} {handler : Handler} {others : List Handler} {request : WorkerRequest}
    {next : request.Answer → Worker (Except OperatorRecoveryError Unit)} {answer : request.Answer}
    (hprogram : handler.program = .request request next)
    (hadmits : admits ⟨worker, world, handler :: others⟩ handler)
    (hanswer : (unattended noDefect).answer world request answer world') :
    Step ext admits ⟨worker, world, handler :: others⟩
      ⟨worker, world', handler.goesOn (next answer) :: others⟩ := by
  have hlisted : handler :: others = [] ++ handler :: others := rfl
  have hstep : Interaction.Step (unattended noDefect) (handler.program, world)
      (next answer, world') := by
    rw [hprogram]
    exact .answer hanswer
  exact .handle hlisted hadmits hstep

/-- The last step of a handler, if its action wakes the worker. -/
theorem runs_finish (action : RecoveryAction) (run : RunId) (worker : Worker Unit) (world : World)
    (others : List Handler) :
    ∃ later, Runs ext undisturbed ⟨worker, world, ⟨action, run, action.finish⟩ :: others⟩ later ∧
      ⟨action, run, .pure (.ok ())⟩ ∈ later.handlers := by
  have hresumed : action.finish = .request .recoveryResume (fun _ => .pure (.ok ())) →
      ∃ later, Runs ext undisturbed ⟨worker, world, ⟨action, run, action.finish⟩ :: others⟩ later ∧
        ⟨action, run, .pure (.ok ())⟩ ∈ later.handlers := by
    intro hfinish
    let awake : World := { world with process := { world.process with recoveryPermit := true } }
    have hanswer : (unattended noDefect).answer world .recoveryResume () awake :=
      ⟨⟨rfl, fun _ h => h.elim⟩, rfl⟩
    refine ⟨_, .single (.answered hfinish ?_ hanswer), List.mem_cons_self⟩
    intro _ _ _ _ hwrites
    rw [hfinish] at hwrites
    cases hwrites
  cases action with
  | confirmCleanup => exact ⟨_, .refl, List.mem_cons_self⟩
  | continueAfterCleanup => exact hresumed rfl
  | retryCompletion => exact hresumed rfl
  | acceptCoordinatorResult => exact hresumed rfl

/-- An operator whose action is admitted while the worker holds no copy succeeds. -/
theorem decision_succeeds {action : RecoveryAction} {run : RunId} {current changed : RunRecord}
    (hfree : site.HoldsNoCopy) (hcurrent : site.machine.Durable run current)
    (happly : action.apply current = .ok changed) :
    ∃ later, Runs ext undisturbed site later ∧
      ⟨action, run, .pure (.ok ())⟩ ∈ later.handlers := by
  obtain ⟨worker, world, others⟩ := site
  have hfound : (unattended noDefect).answer world (.runner run (.get run)) (.ok (some current))
      world := by
    refine ⟨⟨⟨rfl, fun found hfound => ?_⟩, fun _ h => h.elim⟩, rfl⟩
    rw [← Except.ok.inj hfound]
    exact hcurrent.symm
  have hproceed : action.proceed run (.ok (some current)) = action.store run changed := by
    rw [RecoveryAction.proceed, happly]
  have hread : Step ext undisturbed ⟨worker, world, .arrived action run :: others⟩
      ⟨worker, world, ⟨action, run, action.store run changed⟩ :: others⟩ := by
    rw [← hproceed]
    refine Step.answered rfl ?_ hfound
    intro _ _ _ _ hwrites
    cases hwrites
  let stored : World :=
    { world with ledger := world.ledger.withStore (world.ledger.store.write changed) }
  have hsaved : (unattended noDefect).answer world
      (.runner run (.save (.operator action) changed)) (.ok ()) stored :=
    ⟨⟨⟨rfl, rfl⟩, fun _ h => h.elim⟩, rfl⟩
  have hwrite : Step ext undisturbed
      ⟨worker, world, ⟨action, run, action.store run changed⟩ :: others⟩
      ⟨worker, stored, ⟨action, run, action.finish⟩ :: others⟩ := by
    refine Step.answered
      (show (Handler.mk action run (action.store run changed)).program = _ from rfl) ?_ hsaved
    intro _ _ _ _ hwrites
    cases hwrites
    exact ⟨hfree, current, hcurrent, happly⟩
  obtain ⟨later, hfinish, hmem⟩ := runs_finish action run worker stored others
  exact ⟨later, .head .arrive (.head hread (.head hwrite hfinish)), hmem⟩

/-! ## A decision that lasts, and one that does not -/

/-- The worker pauses under a hold for a rejected completion. -/
def held : Showing fun site : Site =>
    site.machine.awaits (fun request => !request.holdsCopy) &&
    site.machine.keeps Sample.run fun record =>
      (RecoveryAction.acceptCoordinatorResult.apply record).toBool :=
  ⟨(start Sample.ext Sample.deployment).work (Sample.conflict fun _ request =>
    request.standsDown), by decide +kernel⟩

theorem acceptance_lasts : ∃ site, Reachable Sample.ext undisturbed site ∧
    ⟨.acceptCoordinatorResult, Sample.run, .pure (.ok ())⟩ ∈ site.handlers ∧
    (∃ record, site.machine.Durable Sample.run record ∧
      RecoveryAction.acceptCoordinatorResult.Lasts record) ∧
    ∀ body, ¬ site.machine.Requests (.completeRaw Sample.run body) := by
  have hheld : Reachable Sample.ext undisturbed held.1 := ⟨Sample.deployment, runs_work⟩
  obtain ⟨hawaits, hkeeps⟩ := Bool.and_eq_true_iff.mp held.2
  have hfree : held.1.HoldsNoCopy := by
    obtain ⟨request, ⟨next, hworker⟩, htest⟩ := Machine.requests_of_awaits hawaits
    exact Or.inl ⟨request, next, hworker, by simpa using htest⟩
  obtain ⟨current, hcurrent, htest⟩ := Machine.durable_of_keeps _ _ _ hkeeps
  obtain ⟨changed, happly⟩ : ∃ changed,
      RecoveryAction.acceptCoordinatorResult.apply current = .ok changed := by
    cases happly : RecoveryAction.acceptCoordinatorResult.apply current with
    | error error => simp [happly, Except.toBool] at htest
    | ok changed => exact ⟨changed, rfl⟩
  obtain ⟨later, hruns, hmem⟩ := decision_succeeds hfree hcurrent happly
  obtain ⟨first, hstart⟩ := hheld
  have hlater : Reachable Sample.ext undisturbed later := ⟨first, hstart.trans hruns⟩
  obtain ⟨hdurable, hsilent⟩ := decisions_last hlater hmem rfl
  exact ⟨later, hlater, hmem, hdurable, hsilent rfl⟩

/-- After a restart, the worker redelivers the completion under its hold. -/
def redelivering : Site :=
  (held.1.restart Sample.ext Sample.deployment).work (Sample.conflict Sample.sends)

/-- Meanwhile the operator accepts the coordinator's result, and the handler answers. -/
def accepted : Site :=
  (redelivering.arrive .acceptCoordinatorResult Sample.run).attend
    (Sample.conflict fun _ _ => false)

/-- The coordinator rejects the redelivery, and the worker saves its hold again. -/
def overwritten : Showing fun site : Site =>
    (site.handlers.any fun handler => handler.action = .acceptCoordinatorResult &&
      handler.run = Sample.run && handler.succeeded) &&
    site.machine.keeps Sample.run fun record => !record.worker.completionAcknowledged :=
  ⟨accepted.work (Sample.conflict fun _ request => request.standsDown), by decide +kernel⟩

theorem overwritten_reachable : Reachable Sample.ext anyOrder overwritten.1 := by
  have hheld : Runs Sample.ext anyOrder (start Sample.ext Sample.deployment) held.1 := runs_work
  have hredelivering : Runs Sample.ext anyOrder held.1 redelivering :=
    .head .restart runs_work
  have haccepted : Runs Sample.ext anyOrder redelivering accepted :=
    .head .arrive (runs_attend fun _ _ => trivial)
  exact ⟨Sample.deployment, hheld.trans (hredelivering.trans (haccepted.trans runs_work))⟩

/-- The worker's stale copy undoes an acceptance that was reported as a success. -/
theorem stale_copy_undoes_acceptance : ¬ ∀ ext site handler, Reachable ext anyOrder site →
    handler ∈ site.handlers → handler.succeeded = true →
    ∃ record, site.machine.Durable handler.run record ∧ handler.action.Lasts record := by
  intro hclaim
  obtain ⟨hany, hkeeps⟩ := Bool.and_eq_true_iff.mp overwritten.2
  obtain ⟨handler, hmem, htest⟩ := List.any_eq_true.mp hany
  simp only [Bool.and_eq_true, decide_eq_true_eq] at htest
  obtain ⟨⟨haction, hrun⟩, hdone⟩ := htest
  obtain ⟨record, hrecord, hlasts⟩ :=
    hclaim Sample.ext overwritten.1 handler overwritten_reachable hmem hdone
  obtain ⟨record', hrecord', hopen⟩ := Machine.durable_of_keeps _ _ _ hkeeps
  rw [hrun] at hrecord
  have hsame : record = record' := Option.some.inj (hrecord.symm.trans hrecord')
  subst hsame
  rw [haction] at hlasts
  simp [hlasts.1] at hopen

end Site

end PackageHarness
