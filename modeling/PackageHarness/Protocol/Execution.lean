/-
# PackageHarness.Protocol.Execution — a whole run of the controller makes only permitted requests.

Around the algorithm: the first save, the cleanup tail, the conclusion and the last save. What the
worker may rely on afterwards is `Finished` when the controller reports success, and `LeftOpen` when
it does not.
-/
import PackageHarness.Protocol.Algorithm

namespace PackageHarness

open Interaction Routine

variable {ext : Externals} {avoided : Defect → Prop} {run : RunId} {ledger : Ledger} {job : Job}

/-- What the worker finds after `create`: a queued job that nothing has happened to. -/
structure Claimed (ext : Externals) (avoided : Defect → Prop) (run : RunId) (ledger : Ledger)
    (record : RunRecord) : Prop where
  durable : ledger.store run = some record
  queued : record.status = .queued
  driving : Driving ext avoided run ledger record.job
  untouched : record.worker.cleanupRequired = false
  unread : ledger.preflight run = none

/-- What the controller leaves behind when it succeeds. -/
def Finished (run : RunId) (ledger : Ledger) : Prop :=
  ∃ record, ledger.store run = some record ∧ record.result.isSome ∧
    record.worker.claimToken.isSome ∧ record.worker.workerError = none ∧
    record.worker.pendingCompletionBody = none ∧ record.worker.manualRecovery = none

/-- A run whose cleanup is decided, but which has no result yet. -/
structure Decided (ext : Externals) (avoided : Defect → Prop) (run : RunId) (ledger : Ledger)
    (job : Job) : Prop extends Carried ext avoided run ledger job where
  unconcluded : job.result = none
  decided : job.cleanup ≠ .pending

namespace Driving

/-- The status of a driven job is free to change. -/
theorem restatus (h : Driving ext avoided run ledger job) (status : ExecutionStatus) :
    Driving ext avoided run ledger { job with status := status } where
  named := h.named
  noError := h.noError
  noBody := h.noBody
  noHold := h.noHold
  token := h.token
  unheld := h.unheld
  unconcluded := h.unconcluded
  undecided := h.undecided
  durable := by
    obtain ⟨old, hold, hevolves⟩ := h.durable
    exact ⟨old, hold, { hevolves with request := hevolves.request }⟩
  sound := { h.sound with
    concluded := fun result hresult => by
      have hresult : job.result = some result := hresult
      simp [h.unconcluded] at hresult
    rendered := fun body hbody => absurd hbody h.not_rendered }

/-- Deciding the cleanup of a driven job, as its need for cleanup demands. -/
theorem decide (h : Driving ext avoided run ledger job) {status : CleanupStatus}
    (hrequired : job.worker.cleanupRequired = true → status.Definite)
    (huntouched : job.worker.cleanupRequired = false → status = .skipped) :
    Decided ext avoided run ledger { job with cleanup := status } where
  named := h.named
  noError := h.noError
  noBody := h.noBody
  noHold := h.noHold
  token := h.token
  unheld := h.unheld
  unconcluded := h.unconcluded
  decided := by
    show status ≠ .pending
    cases hneeds : job.worker.cleanupRequired with
    | true => rcases hrequired hneeds with rfl | rfl | rfl <;> simp
    | false =>
        rw [huntouched hneeds]
        simp
  durable := by
    obtain ⟨old, hold, hevolves⟩ := h.durable
    refine ⟨old, hold, { hevolves with passed := fun hpassed => ?_ }⟩
    have hjob := hevolves.passed hpassed
    simp [h.undecided] at hjob
  sound := { h.sound with
    untouched := fun hneeds => Or.inr (huntouched hneeds)
    touched := fun hneeds => by
      show status ≠ .skipped
      rcases hrequired hneeds with rfl | rfl | rfl <;> simp
    settled := fun houtcome => by
      have houtcome : job.result.isSome ∨ job.worker.workerError.isSome := houtcome
      simp [h.unconcluded, h.noError] at houtcome
    rendered := fun body hbody => absurd hbody h.not_rendered
    delivered := fun _ hbody => absurd hbody h.not_delivered
    freed := fun _ _ hfree => absurd hfree h.not_freed }

end Driving

namespace Decided

theorem write {record : RunRecord} (h : Decided ext avoided run ledger record.job) :
    Decided ext avoided run (ledger.write record) record.job :=
  { h with toCarried := h.toCarried.write }

/-- A decided job may be concluded with a result of its own run. -/
theorem conclude (h : Decided ext avoided run ledger job) {result : HarnessResult}
    (hrun : result.runId = job.request.runId.value) :
    Carried ext avoided run ledger { job with status := .completed, result := some result } where
  named := h.named
  noError := h.noError
  noBody := h.noBody
  noHold := h.noHold
  token := h.token
  unheld := h.unheld
  durable := by
    obtain ⟨old, hold, hevolves⟩ := h.durable
    refine ⟨old, hold, { hevolves with result := fun found hfound => ?_ }⟩
    have hjob := hevolves.result found hfound
    simp [h.unconcluded] at hjob
  sound := { h.sound with
    settled := fun _ => h.decided
    concluded := fun found hfound => by
      cases hfound
      exact ⟨rfl, hrun⟩
    rendered := fun body hbody => absurd hbody h.not_rendered
    exclusive := fun _ => Or.inr h.noError }

end Decided

namespace Runner

/-! ## The cleanup tail -/

/-- Reconciling the target of an armed run is permitted and leaves the ledger alone. -/
theorem reconcileTarget_safe {record : RunRecord} {dnpName : DnpName} {plan : TargetRecoveryPlan}
    {initialPackages : List PackageSummary} {timeout : Duration}
    (hinv : ledger.Consistent ext avoided) (hdurable : ledger.store run = some record)
    (hrequired : record.worker.cleanupRequired = true) (hopen : record.cleanup.status ≠ .passed)
    (htarget : record.job.target = dnpName) (hplan : record.worker.targetRecovery = plan) :
    Safe (runProtocol ext avoided run)
      (fun outcome after => after = ledger ∧ outcome.1.status.Definite)
      (reconcileTarget dnpName plan initialPackages timeout) ledger := by
  have hbound : Within (Reconciles dnpName plan) _
      (reconcileTarget dnpName plan initialPackages timeout) := reconcileTarget_within
  refine (undisturbing_safe hbound hinv ?_ ?_).mono fun _ _ _ h => ⟨h.1, h.2.definite⟩
  · intro request hreconciles
    cases request with
    | pm call => exact fun hpreflight => by simp [hpreflight, Reconciles] at hreconciles
    | save site record => exact hreconciles
    | enter point => exact hreconciles
    | get id => exact hreconciles
    | _ => trivial
  · intro call target hreconciles hmutates
    obtain ⟨rfl, hvolumes⟩ := hreconciles.mutates hmutates
    exact ⟨record, hdurable, htarget, hrequired, hopen,
      fun hdeletes => hplan.trans (hvolumes hdeletes)⟩

theorem cleanUp_meets {config : RunnerConfig} :
    Meets (runProtocol ext avoided run) (Underway ext avoided run) (cleanUp config)
      (fun _ s ledger => Decided ext avoided run ledger s.record.job)
      (fun _ _ ledger => LeftOpen avoided run ledger) := by
  refine Meets.bind_read fun t => ?_
  split
  · next hauthorizedBefore =>
      -- the save of the phase makes the required cleanup durable, whatever failed before it
      let Required : Job → Ledger → Prop := fun job _ => job.worker.cleanupRequired = true
      let Armed : Execution → Ledger → Prop := fun s ledger =>
        Stage ext avoided run Required s ledger ∧ ledger.store run = some s.record.persisted
      refine Meets.bind (Q := fun _ => Armed) ?_ fun _ => ?_
      · refine (phase_meets (X := Required) (fun _ _ h => h) _).weaken ?_
          (fun _ _ _ _ h => h) fun _ s ledger _ h => h.2.1.leftOpen h.2.1.unconcluded
        intro s ledger _ hpre
        obtain ⟨rfl, hauthorized, hdriving, _⟩ := hpre
        exact ⟨hauthorized, hdriving, hauthorized.symm.trans hauthorizedBefore⟩
      refine Meets.bind_read fun u => ?_
      refine Meets.bind (Q := fun outcome s ledger => outcome.1.status.Definite ∧ Armed s ledger)
        (Meets.run ?_) fun outcome => ?_
      · intro s ledger hinv hpre
        obtain ⟨rfl, hstage, hdurable⟩ := hpre
        have hopen : u.record.cleanup.status ≠ .passed := by
          have hundecided : u.record.cleanup.status = .pending := hstage.2.1.undecided
          simp [hundecided]
        refine (reconcileTarget_safe hinv hdurable hstage.2.2 hopen rfl rfl).mono ?_
        intro outcome _ _ hpost
        obtain ⟨rfl, hdefinite⟩ := hpost
        exact ⟨hdefinite, hstage, hdurable⟩
      refine Meets.bind (Q := fun _ s ledger => Decided ext avoided run ledger s.record.job)
        (Meets.update ?_) fun _ => ?_
      · intro s ledger _ hpre
        obtain ⟨hdefinite, ⟨_, hdriving, hrequired⟩, _⟩ := hpre
        refine hdriving.decide (fun _ => hdefinite) fun huntouched => ?_
        have hrequired : s.record.job.worker.cleanupRequired = true := hrequired
        simp [hrequired] at huntouched
      · refine (saveRecord_meets' (P := fun s ledger =>
          Decided ext avoided run ledger s.record.job) (fun _ _ h => h.toCarried)
          (fun _ _ h => h.write) _).weaken (fun _ _ _ h => h) (fun _ _ _ _ h => h.1) ?_
        exact fun _ s ledger _ h => h.leftOpen h.unconcluded
  · next hunauthorized =>
      refine Meets.update ?_
      intro s ledger _ hpre
      obtain ⟨rfl, hauthorized, hdriving, _⟩ := hpre
      have huntouched : t.record.job.worker.cleanupRequired = false := by
        have heq : t.cleanupAuthorized = t.record.job.worker.cleanupRequired := hauthorized
        rw [← heq]
        simpa using hunauthorized
      refine hdriving.decide (fun hrequired => ?_) fun _ => rfl
      simp [huntouched] at hrequired

/-! ## The conclusion -/

theorem noteCleanupFailure_job (record : RunRecord) :
    (noteCleanupFailure record).job = record.job := by
  unfold noteCleanupFailure
  split <;> rfl

theorem conclude_job (ext : Externals) (failure : Option Failure) (finished : Timestamp)
    (record : RunRecord) :
    ∃ result, result.runId = record.id.value ∧
      (conclude ext failure finished record).job =
        { record.job with status := .completed, result := some result } := by
  have hjob := noteCleanupFailure_job record
  have hid : (noteCleanupFailure record).id = record.id :=
    congrArg (fun job : Job => job.request.runId) hjob
  unfold conclude
  dsimp only
  generalize signatureOverlay _ _ = decided
  obtain ⟨verdict, reason, summary⟩ := decided
  refine ⟨?result, ?run, ?job⟩
  case job =>
    rw [← hjob]
    rfl
  case run => exact congrArg RunId.value hid

/-- The last save: reported as done it is durable, reported as failed the run is left open. -/
theorem finish_meets :
    Meets (runProtocol ext avoided run)
      (fun s ledger => Carried ext avoided run ledger s.record.job ∧ s.record.result.isSome ∧
        LeftOpen avoided run ledger)
      (phase .finished) (fun _ _ ledger => Finished run ledger)
      (fun _ _ ledger => LeftOpen avoided run ledger) := by
  let Concluded : Execution → Ledger → Prop := fun s ledger =>
    Carried ext avoided run ledger s.record.job ∧ s.record.result.isSome ∧
      LeftOpen avoided run ledger
  refine Meets.bind (ask_meets trivial) ?_
  intro time
  refine Meets.bind (Q := fun _ => Concluded) (Meets.update fun _ _ _ h => h) fun _ => ?_
  refine Meets.bind (Q := fun _ _ ledger => Finished run ledger) ?_ fun _ => ?_
  · refine Meets.bind_read fun t => ?_
    refine Meets.bind (Q := byOutcome (fun _ _ ledger => Finished run ledger)
      fun _ _ ledger => LeftOpen avoided run ledger) (Meets.run ?_) ?_
    · intro s ledger hinv hpre
      obtain ⟨rfl, hcarried, hresult, hopen⟩ := hpre
      obtain ⟨hid, haccepts⟩ := hcarried.accepts
      have hdurable : (ledger.write t.record).store run = some t.record.persisted := by
        rw [← hid]
        exact RunStore.write_same ..
      refine Runner.save_safe hinv hid haccepts (hcarried.others hinv) (fun error _ => hopen) ?_
      intro outcome havoids
      rcases outcome with error | _
      · -- the save failed but took effect: the worker will find a result and an error
        refine ⟨t.record.persisted, hdurable, hcarried.token, hcarried.noError, hcarried.noBody,
          hcarried.noHold, fun hdoubles => absurd ?_ (havoids .doublesOutcome hdoubles)⟩
        exact RunStore.write_same ..
      · exact ⟨t.record.persisted, hdurable, hresult, hcarried.token, hcarried.noError,
          hcarried.noBody, hcarried.noHold⟩
    · intro outcome
      rcases outcome with error | _
      · exact Meets.throw fun _ _ _ h => h
      · exact Meets.pure fun _ _ _ h => h
  · exact Meets.bind_read_any fun _ => ask_meets trivial

/-! ## The whole run -/

theorem noteFailure_meets {result : Except Failure Unit} :
    Meets (runProtocol ext avoided run) (Underway ext avoided run) (noteFailure result)
      (fun _ => Underway ext avoided run) (fun _ _ ledger => LeftOpen avoided run ledger) := by
  rcases result with failure | _
  · exact Meets.bind (modify_meets fun record => rfl) fun _ => Meets.pure fun _ _ _ h => h
  · exact Meets.pure fun _ _ _ h => h

theorem drive_meets {config : RunnerConfig} (target : DnpName) :
    Meets (runProtocol ext avoided run) (Stage ext avoided run (Untouched run target))
      (drive ext config) (fun _ _ ledger => Finished run ledger)
      (fun _ _ ledger => LeftOpen avoided run ledger) := by
  refine Meets.bind (ask_meets trivial) ?_
  intro started
  refine Meets.bind (Q := fun _ => Stage ext avoided run (Untouched run target))
    (Meets.update fun _ _ _ h => ⟨h.1, h.2.1.restatus .running, h.2.2⟩) fun _ => ?_
  refine Meets.bind (Q := fun _ => Stage ext avoided run (Untouched run target))
    ((saveRecord_meets Untouched.stable _).weaken (fun _ _ _ h => h) (fun _ _ _ _ h => h.1)
      fun _ _ _ _ h => h.2.1.leftOpen h.2.1.unconcluded) fun _ => ?_
  refine Meets.bind_read_any fun s => ?_
  refine Meets.bind (ask_meets trivial) ?_
  intro _
  refine Meets.bind (Q := fun _ => Underway ext avoided run)
    (Meets.attempt (K := fun _ => Underway ext avoided run) runAlgorithm_meets) fun result => ?_
  refine Meets.bind noteFailure_meets ?_
  intro failure
  refine Meets.bind cleanUp_meets ?_
  intro _
  refine Meets.bind (ask_meets trivial) ?_
  intro finished
  refine Meets.bind (Meets.update ?_) fun _ => finish_meets
  intro s ledger _ h
  obtain ⟨result, hrun, hjob⟩ := conclude_job ext failure finished s.record
  refine ⟨?_, ?_, h.leftOpen h.unconcluded⟩
  · show Carried ext avoided run ledger (conclude ext failure finished s.record).job
    rw [hjob]
    exact h.conclude hrun
  · show (conclude ext failure finished s.record).job.result.isSome = true
    rw [hjob]
    rfl

/-- Executing a run that was just claimed. -/
theorem execute_safe {config : RunnerConfig} {record : RunRecord}
    (hinv : ledger.Consistent ext avoided) (h : Claimed ext avoided run ledger record) :
    Safe (runProtocol ext avoided run)
      (fun outcome after => match outcome with
        | .ok _ => Finished run after
        | .error _ => LeftOpen avoided run after) (execute ext config run) ledger := by
  refine Safe.bind (Q := fun answer after => after = ledger ∧
    ∀ found, answer = .ok found → found = some record) ?_ ?_
  · refine Runner.ask_safe (.get run) hinv h.driving.unheld ?_
    intro answer after hanswer _ _
    obtain ⟨hsame, hfound⟩ := hanswer
    exact ⟨hsame, fun found hok => (hfound found hok).trans h.durable⟩
  · intro outcome after hinv' hanswer
    obtain ⟨rfl, hfound⟩ := hanswer
    rcases outcome with error | found
    · exact Safe.pure hinv' (h.driving.leftOpen h.driving.unconcluded)
    · cases hfound found rfl
      dsimp only
      rw [if_neg (by simp [h.queued])]
      refine Safe.bind (drive_meets record.job.target { record := record } after hinv'
        ⟨h.untouched.symm, h.driving, rfl, h.untouched, h.unread⟩) ?_
      intro c after' hinv'' hends
      obtain ⟨outcome, s⟩ := c
      rcases outcome with error | _
      · exact Safe.pure hinv'' hends
      · exact Safe.pure hinv'' hends

end Runner

end PackageHarness
