/-
# PackageHarness.Protocol.Settlement — settling a job makes only permitted requests.

The local state is the worker's copy of the record. `Copy` says that saving it is permitted at any
time, `Synced` that it is what is durable. A settlement that succeeds leaves no job with a claim.
-/
import PackageHarness.Protocol.Updates

namespace PackageHarness

open Interaction Routine

variable {ext : Externals} {avoided : Defect → Prop} {ledger : Ledger} {record : RunRecord}

/-- The worker's copy of a claimed record. -/
structure Copy (ext : Externals) (avoided : Defect → Prop) (record : RunRecord) (ledger : Ledger) :
    Prop where
  token : record.worker.claimToken.isSome
  accepts : ledger.Accepts ext avoided record

/-- A copy for which no completion has been built. -/
structure OpenCopy (ext : Externals) (avoided : Defect → Prop) (record : RunRecord)
    (ledger : Ledger) : Prop extends Copy ext avoided record ledger where
  noBody : record.worker.pendingCompletionBody = none

def Synced (record : RunRecord) (ledger : Ledger) : Prop :=
  ledger.store record.id = some record.persisted

/-- The durable record has the copy's delivery state. -/
def Mirrored (record : RunRecord) (ledger : Ledger) : Prop :=
  ∃ old, ledger.store record.id = some old ∧ old.worker = record.worker ∧
    old.request = record.request

theorem Synced.mirrored (h : Synced record ledger) : Mirrored record ledger :=
  ⟨record.persisted, h, rfl, rfl⟩

theorem Synced.write (record : RunRecord) (ledger : Ledger) :
    Synced record (ledger.write record) := RunStore.write_same ..

theorem Copy.of_synced (hinv : ledger.Consistent ext avoided) (h : Synced record ledger)
    (htoken : record.worker.claimToken.isSome) : Copy ext avoided record ledger :=
  ⟨htoken, .of_durable hinv h⟩

theorem Copy.saveable (h : Copy ext avoided record ledger) (hinv : ledger.Consistent ext avoided) :
    ledger.Accepts ext avoided record ∧ ledger.QuietExcept record.id :=
  ⟨h.accepts, h.accepts.others hinv h.token⟩

theorem Copy.write (h : Copy ext avoided record ledger) :
    Copy ext avoided record (ledger.write record) := ⟨h.token, h.accepts.write⟩

theorem OpenCopy.write (h : OpenCopy ext avoided record ledger) :
    OpenCopy ext avoided record (ledger.write record) := { h with toCopy := h.toCopy.write }

/-- Once the copy's claim has ended and is durable, no job holds a claim. -/
theorem Ledger.QuietExcept.write (h : ledger.QuietExcept record.id)
    (htoken : record.worker.claimToken = none) : (ledger.write record).Quiet := by
  intro run found hfound
  rcases Ledger.write_store_cases hfound with ⟨_, rfl⟩ | ⟨hne, hold⟩
  · exact htoken
  · exact h run found hold hne

namespace Worker

/-! ## Requests -/

theorem onBehalf_safe {α : Type} {run : RunId} {Q : α → Ledger → Prop} {p : Runner α}
    (h : Safe (runProtocol ext avoided run) Q p ledger) :
    Safe (protocol ext avoided) Q (onBehalf run p) ledger := Safe.translate h

/-- A request of the worker that changes nothing durable, made while it holds a copy. -/
theorem ask_meets {P : RunRecord → Ledger → Prop} {F : String → RunRecord → Ledger → Prop}
    {request : WorkerRequest} {Q : request.Answer → RunRecord → Ledger → Prop}
    (hheld : request.holdsCopy = true)
    (hpermits : ∀ r w, w.Consistent ext avoided → P r w → w.Permits ext avoided request)
    (hsame : ∀ r w answer after, w.Consistent ext avoided → P r w →
      w.Answers request answer after → after = w ∧ Q answer r w) :
    Meets (protocol ext avoided) P (.run (ask request)) Q F := by
  refine Meets.run ?_
  intro r w hinv hP
  refine Safe.request_still (protocol_still hheld) hinv (hpermits r w hinv hP) ?_
  intro answer after hanswer hinv'
  obtain ⟨hanswers, _⟩ := hanswer
  obtain ⟨rfl, hQ⟩ := hsame r w answer after hinv hP hanswers
  exact Safe.pure hinv' hQ

/-- Saving the copy. After a reported failure the durable record is the old or the new one. -/
theorem persist_meets {P : RunRecord → Ledger → Prop} {Q : Unit → RunRecord → Ledger → Prop}
    {F : String → RunRecord → Ledger → Prop} {site : SaveSite} {context : String}
    (hsaveable : ∀ r w, w.Consistent ext avoided → P r w →
      w.Accepts ext avoided r ∧ w.QuietExcept r.id)
    (hok : ∀ r w, w.Consistent ext avoided → P r w →
      (∀ defect, avoided defect →
        ¬ defect.ShownBy (.runner r.id (.save site r)) (.ok ()) (w.write r)) → Q () r (w.write r))
    (herror : ∀ r w error text after, w.Consistent ext avoided → P r w →
      after = w ∨ after = w.write r →
      (∀ defect, avoided defect →
        ¬ defect.ShownBy (.runner r.id (.save site r)) (.error error) after) → F text r after) :
    Meets (protocol ext avoided) P (persist site context) Q F := by
  refine Meets.bind_read fun t => ?_
  refine Meets.bind (Q := byOutcome (fun _ => Q ()) fun _ r w => ∀ text, F text r w)
    (Meets.run ?_) ?_
  · intro r w hinv hpre
    obtain ⟨rfl, hP⟩ := hpre
    obtain ⟨haccepts, hothers⟩ := hsaveable t w hinv hP
    refine onBehalf_safe (Runner.save_safe hinv rfl haccepts hothers ?_ ?_)
    · exact fun error havoids text => herror t w error text w hinv hP (Or.inl rfl) havoids
    · intro outcome havoids
      rcases outcome with error | _
      · exact fun text => herror t w error text _ hinv hP (Or.inr rfl) havoids
      · exact hok t w hinv hP havoids
  · intro outcome
    rcases outcome with error | _
    · exact Meets.throw fun _ _ _ h => h _
    · exact Meets.pure fun _ _ _ h => h

/-- Observing code on behalf of the copy's run keeps whatever is known. -/
theorem observe_meets {α : Type} {P : RunRecord → Ledger → Prop}
    {F : String → RunRecord → Ledger → Prop} {run : RunId} {p : Runner α}
    (h : Within Runner.Observes (fun _ => True) p) :
    Meets (protocol ext avoided) P (.run (onBehalf run p)) (fun _ => P) F := by
  refine Meets.run ?_
  intro r w hinv hP
  refine (onBehalf_safe (Observes.safe h hinv)).mono ?_
  intro _ _ _ hpost
  obtain ⟨rfl, _⟩ := hpost
  exact hP

/-- Reading an inventory for a job does not touch the ledger. -/
theorem listInventory_meets {P : RunRecord → Ledger → Prop} {purpose : InventoryUse}
    {context : String} (hpurpose : purpose ≠ .preflight) :
    Meets (protocol ext avoided) P (listInventory purpose context) (fun _ => P) (fun _ => P) := by
  refine Meets.bind_read_any fun t => ?_
  have hobserves : Runner.Observes (.pm (.listPackages purpose)) := ⟨by simp [hpurpose], rfl⟩
  refine Meets.bind (observe_meets (Within.ask hobserves)) ?_
  intro outcome
  rcases outcome with error | packages
  · exact Meets.throw fun _ _ _ h => h
  · exact Meets.pure fun _ _ _ h => h

theorem publish_meets {P : RunRecord → Ledger → Prop} {F : String → RunRecord → Ledger → Prop}
    {run : RunId} {phase : ExecutionPhase} {required : Bool} :
    Meets (protocol ext avoided) P (.run (onBehalf run (Runner.publish phase required)))
      (fun _ => P) F := by
  have hobserves : Runner.Observes (.publish phase required) := trivial
  exact observe_meets (Within.ask hobserves)

/-- Passing a program point that is permitted with the copy. -/
theorem mark_meets {P : RunRecord → Ledger → Prop} {Q : Unit → RunRecord → Ledger → Prop}
    {F : String → RunRecord → Ledger → Prop} {point : RunRecord → ProgramPoint}
    (hpermits : ∀ r w, w.Consistent ext avoided → P r w →
      w.Permits ext avoided (.runner r.id (.enter (point r))))
    (hQ : ∀ r w, w.Consistent ext avoided → P r w →
      (∀ defect, avoided defect → ¬ defect.ShownBy (.runner r.id (.enter (point r))) () w) →
      Q () r w) :
    Meets (protocol ext avoided) P (mark point) Q F := by
  refine Meets.bind_read fun t => Meets.run ?_
  intro r w hinv hpre
  obtain ⟨rfl, hP⟩ := hpre
  refine onBehalf_safe (Runner.ask_safe (.enter (point t)) hinv (hpermits t w hinv hP) ?_)
  intro _ after hanswers havoids _
  have hsame : after = w := hanswers
  subst hsame
  exact hQ t after hinv hP havoids

/-! ## Holds -/

/-- Putting a job on hold and leaving. -/
theorem pause_meets {P : RunRecord → Ledger → Prop} {Q : Unit → RunRecord → Ledger → Prop}
    {kind : ManualRecoveryKind} {reason : String}
    (hcopy : ∀ r w, w.Consistent ext avoided → P r w → Copy ext avoided r w ∧
      (kind = .completionConflict → r.worker.pendingCompletionBody.isSome) ∧
      (avoided .holdsUntouchedTarget → kind = .cleanup → r.worker.cleanupRequired = true)) :
    Meets (protocol ext avoided) P (pause ext kind reason) Q (fun _ _ _ => True) := by
  refine Meets.bind (Q := fun _ _ _ => True) ?_ fun text => Meets.throw fun _ _ _ _ => trivial
  refine Meets.bind (Q := fun _ => Copy ext avoided) (Meets.update ?_) fun _ => ?_
  · intro r w hinv hP
    obtain ⟨hcopy, hconflict, hcleanup⟩ := hcopy r w hinv hP
    exact ⟨hcopy.token, hcopy.accepts.holdFor hcopy.token hconflict hcleanup _⟩
  · refine Meets.bind (Q := fun _ _ _ => True) (persist_meets (fun _ _ hinv h => h.saveable hinv)
      (fun _ _ _ _ _ => trivial) fun _ _ _ _ _ _ _ _ _ => trivial) fun _ => ?_
    exact Meets.pure fun _ _ _ _ => trivial

/-! ## Cleanup -/

/-- What a settlement knows of its copy when the target has been reconciled. -/
structure Recovered (ext : Externals) (avoided : Defect → Prop) (cause : RecoveryCause)
    (record : RunRecord) (ledger : Ledger) : Prop extends OpenCopy ext avoided record ledger where
  reconciled : record.job.Reconciled
  clean : cause = .claimLost → avoided .releasesUncleanClaim → record.job.Clean

section Recovery

variable {P : RunRecord → Prop} {config : WorkerConfig} {cause : RecoveryCause}

/-- Persisting a recovery state that needs no reconciliation. -/
theorem persistRecoveryState_meets {context : String} :
    Meets (protocol ext avoided)
      (fun r w => P r ∧ OpenCopy ext avoided r w ∧
        (r.worker.cleanupRequired = false ∨ r.cleanup.status = .passed))
      (persist (.recoveryState cause) context)
      (fun _ r w => P r ∧ Recovered ext avoided cause r w)
      (fun _ r w => P r ∧ OpenCopy ext avoided r w ∧
        (avoided .holdsUntouchedTarget → r.worker.cleanupRequired = true)) := by
  refine persist_meets (fun _ _ hinv h => h.2.1.saveable hinv) ?_ ?_
  · intro r w _ hpre _
    obtain ⟨hP, hopen, hneedless⟩ := hpre
    -- untouched or passed: either way the target is clean
    have hclean : r.job.Clean := by
      intro hrequired
      rcases hneedless with huntouched | hpassed
      · have hrequired : r.worker.cleanupRequired = true := hrequired
        simp [huntouched] at hrequired
      · exact hpassed
    exact ⟨hP, { hopen.write with
      reconciled := fun hrequired => Or.inl (hclean hrequired)
      clean := fun _ _ => hclean }⟩
  · intro r w error text after _ hpre hafter havoids
    obtain ⟨hP, hopen, _⟩ := hpre
    refine ⟨hP, ?_, fun havoided => ?_⟩
    · rcases hafter with rfl | rfl
      · exact hopen
      · exact hopen.write
    · -- the save of an untouched target failed, which is the defect
      cases hrequired : r.worker.cleanupRequired with
      | true => rfl
      | false => exact absurd hrequired (havoids .holdsUntouchedTarget havoided)

/-- Reconciling the target on behalf of its job, and persisting what came of it. -/
theorem reconcile_meets {context : String}
    (hP : ∀ cleanup finalPackages r, P r → P (Runner.setCleanup cleanup finalPackages r))
    (t : RunRecord) :
    Meets (protocol ext avoided)
      (fun r w => t = r ∧ P r ∧ OpenCopy ext avoided r w ∧ Mirrored r w ∧
        r.worker.cleanupRequired = true ∧ r.cleanup.status ≠ .passed)
      (do
        let (cleanup, finalPackages) ← .run (onBehalf t.id (Runner.reconcileTarget
          t.request.package.dnpName t.worker.targetRecovery t.evidence.initialPackages
          config.cleanupTimeout))
        .update (Runner.setCleanup cleanup finalPackages)
        persist (.restartCleanup cause) context)
      (fun _ r w => P r ∧ Recovered ext avoided cause r w)
      (fun _ r w => P r ∧ OpenCopy ext avoided r w ∧
        (avoided .holdsUntouchedTarget → r.worker.cleanupRequired = true)) := by
  refine Meets.bind (Q := fun outcome r w => outcome.1.status.Definite ∧ P r ∧
    OpenCopy ext avoided r w ∧ r.worker.cleanupRequired = true ∧ r.cleanup.status ≠ .passed)
    (Meets.run ?_) fun outcome => ?_
  · intro r w hinv hpre
    obtain ⟨rfl, hPr, hopen, ⟨old, hold, hworker, hrequest⟩, hrequired, hpassed⟩ := hpre
    -- the copy evolved from what is durable, so a durably passed cleanup would be passed in it
    have hdurable : old.cleanup.status ≠ .passed := by
      obtain ⟨old', hold', hevolves⟩ := hopen.accepts.durable
      cases hold.symm.trans hold'
      exact fun hold => hpassed (hevolves.passed hold)
    refine (onBehalf_safe (Runner.reconcileTarget_safe hinv hold (by rw [hworker, hrequired])
      hdurable ?_ (by rw [hworker]))).mono ?_
    · exact congrArg (fun request : RunRequest => request.package.dnpName) hrequest
    · intro outcome _ _ hpost
      obtain ⟨rfl, hdefinite⟩ := hpost
      exact ⟨hdefinite, hPr, hopen, hrequired, hpassed⟩
  · refine Meets.bind (Q := fun _ r w => P r ∧ OpenCopy ext avoided r w ∧
      r.worker.cleanupRequired = true ∧ r.cleanup.status.Definite) (Meets.update ?_) fun _ => ?_
    · intro r w _ hpre
      obtain ⟨hdefinite, hPr, hopen, hrequired, hpassed⟩ := hpre
      refine ⟨hP _ _ r hPr, ⟨⟨hopen.token, ?_⟩, hopen.noBody⟩, hrequired, hdefinite⟩
      exact hopen.accepts.setCleanup hopen.token hopen.noBody hrequired hpassed hdefinite _
    · refine persist_meets (fun _ _ hinv h => h.2.1.saveable hinv) ?_ ?_
      · intro r w _ hpre havoids
        obtain ⟨hPr, hopen, _, hdefinite⟩ := hpre
        refine ⟨hPr, { hopen.write with
          reconciled := fun _ => hdefinite
          clean := fun hcause havoided _ => ?_ }⟩
        -- after a lost claim only a passed cleanup avoids the defect
        subst hcause
        by_cases hstatus : r.cleanup.status = .passed
        · exact hstatus
        · exact absurd hstatus (havoids .releasesUncleanClaim havoided)
      · intro r w error text after _ hpre hafter _
        obtain ⟨hPr, hopen, hrequired, _⟩ := hpre
        refine ⟨hPr, ?_, fun _ => hrequired⟩
        rcases hafter with rfl | rfl
        · exact hopen
        · exact hopen.write

/-- Recovery of the target, for a copy whose delivery state is the durable one. -/
theorem recoverTargetIfRequired_meets
    (hP : ∀ cleanup finalPackages r, P r → P (Runner.setCleanup cleanup finalPackages r)) :
    Meets (protocol ext avoided)
      (fun r w => P r ∧ OpenCopy ext avoided r w ∧ Mirrored r w)
      (recoverTargetIfRequired config cause)
      (fun _ r w => P r ∧ Recovered ext avoided cause r w)
      (fun _ r w => P r ∧ OpenCopy ext avoided r w ∧
        (avoided .holdsUntouchedTarget → r.worker.cleanupRequired = true)) := by
  refine Meets.bind_read fun t => ?_
  split
  · next hneedless =>
      refine persistRecoveryState_meets.pre ?_
      intro r w _ hpre
      obtain ⟨rfl, hPr, hopen, _⟩ := hpre
      exact ⟨hPr, hopen, by simpa using hneedless⟩
  · next hneeded =>
      have hrequired : t.worker.cleanupRequired = true ∧ t.cleanup.status ≠ .passed := by
        simpa using hneeded
      split
      · refine Meets.throw ?_
        intro r w _ hpre
        obtain ⟨rfl, hPr, hopen, _⟩ := hpre
        exact ⟨hPr, hopen, fun _ => hrequired.1⟩
      · refine Meets.bind (Q := fun _ r w => t = r ∧ P r ∧ OpenCopy ext avoided r w ∧ Mirrored r w)
          ((listInventory_meets (by simp)).weaken (fun _ _ _ h => h) (fun _ _ _ _ h => h) ?_)
          fun packages => ?_
        · intro _ r w _ hpre
          obtain ⟨rfl, hPr, hopen, _⟩ := hpre
          exact ⟨hPr, hopen, fun _ => hrequired.1⟩
        split
        · refine Meets.throw ?_
          intro r w _ hpre
          obtain ⟨rfl, hPr, hopen, _⟩ := hpre
          exact ⟨hPr, hopen, fun _ => hrequired.1⟩
        · refine Meets.bind publish_meets ?_
          intro _
          refine (reconcile_meets hP t).pre ?_
          intro r w _ hpre
          obtain ⟨rfl, hPr, hopen, hmirrored⟩ := hpre
          exact ⟨rfl, hPr, hopen, hmirrored, hrequired⟩

theorem recoverOrPause_meets {context : String}
    (hP : ∀ cleanup finalPackages r, P r → P (Runner.setCleanup cleanup finalPackages r)) :
    Meets (protocol ext avoided)
      (fun r w => P r ∧ OpenCopy ext avoided r w ∧ Mirrored r w)
      (recoverOrPause ext config cause context)
      (fun _ r w => P r ∧ Recovered ext avoided cause r w) (fun _ _ _ => True) := by
  refine Meets.bind (Q := byOutcome (fun _ r w => P r ∧ Recovered ext avoided cause r w)
    fun _ r w => P r ∧ OpenCopy ext avoided r w ∧
      (avoided .holdsUntouchedTarget → r.worker.cleanupRequired = true))
    (Meets.attempt (recoverTargetIfRequired_meets hP)) ?_
  intro outcome
  rcases outcome with error | _
  · -- the hold goes onto the copy as the failed recovery left it
    refine pause_meets ?_
    intro r w _ hpre
    obtain ⟨_, hopen, hrequired⟩ := hpre
    exact ⟨hopen.toCopy, fun h => by simp at h, fun havoided _ => hrequired havoided⟩
  · exact Meets.pure fun _ _ _ h => h

end Recovery

/-! ## Worker errors -/

theorem stampWhen_meets {P : RunRecord → Ledger → Prop} {F : String → RunRecord → Ledger → Prop}
    {condition : RunRecord → Bool} {f : Timestamp → RunRecord → RunRecord}
    (hf : ∀ time r w, w.Consistent ext avoided → P r w → P (f time r) w) :
    Meets (protocol ext avoided) P (stampWhen condition f) (fun _ => P) F := by
  refine Meets.bind_read_any fun t => ?_
  split
  · refine Meets.bind (Q := fun _ => P) (ask_meets rfl (fun _ _ _ _ => trivial) ?_) fun time => ?_
    · intro r w answer after _ hP hanswers
      exact ⟨hanswers, hP⟩
    · exact Meets.update fun r w hinv hP => hf time r w hinv hP
  · exact Meets.pure fun _ _ _ h => h

/-- What a worker error may be recorded for, and what is known of the copy afterwards. -/
structure Failing (ext : Externals) (avoided : Defect → Prop) (code : WorkerErrorCode)
    (text : String) (clean : Prop) (record : RunRecord) (ledger : Ledger) :
    Prop extends OpenCopy ext avoided record ledger where
  reconciled : record.job.Reconciled
  exclusive : avoided .doublesOutcome → record.result = none
  replaces : avoided .replacesOutcome → ∀ error, record.worker.workerError = some error →
    error.code = code ∧ error.summary = redactAndBound ext text 500
  cleaned : clean → record.job.Clean

/-- A copy that may be delivered. -/
structure Delivering (ext : Externals) (avoided : Defect → Prop) (clean : Prop)
    (record : RunRecord) (ledger : Ledger) : Prop extends Copy ext avoided record ledger where
  synced : Synced record ledger
  outcome : record.result.isSome ∨ record.worker.workerError.isSome
  cleaned : clean → record.job.Clean

theorem setWorkerError_meets {code : WorkerErrorCode} {text : String} (clean : Prop)
    (hinterrupted : code = .interrupted → text = interruptedSummary) :
    Meets (protocol ext avoided) (Failing ext avoided code text clean)
      (setWorkerError ext code text)
      (fun _ r w => Delivering ext avoided clean r w ∧
        r.worker.pendingCompletionBody = none) (fun _ _ _ => True) := by
  refine Meets.bind (Q := fun _ => Failing ext avoided code text clean)
    (stampWhen_meets ?_) fun _ => ?_
  · exact fun time r w _ h => { h with accepts := h.accepts.complete time }
  refine Meets.bind (Q := fun _ => Failing ext avoided code text clean)
    (stampWhen_meets fun time r w _ h => ?_) fun _ => ?_
  · exact { h with accepts := ⟨h.accepts.durable, h.accepts.sound⟩ }
  refine Meets.bind (Q := fun _ r w => Copy ext avoided r w ∧ r.worker.workerError.isSome ∧
    (clean → r.job.Clean) ∧ r.worker.pendingCompletionBody = none) (Meets.update ?_) fun _ => ?_
  · intro r w _ h
    obtain ⟨error, _, _, hjob⟩ := recordWorkerError_job code (redactAndBound ext text 500) r
    have hworker : (recordWorkerError code (redactAndBound ext text 500) r).worker =
        { r.worker with workerError := some error } := congrArg Job.worker hjob
    refine ⟨⟨?_, ?_⟩, ?_, fun hclean => ?_, ?_⟩
    · rw [hworker]
      exact h.token
    · exact h.accepts.recordWorkerError h.token h.noBody h.reconciled h.exclusive h.replaces
        fun hcode => by rw [hinterrupted hcode]
    · rw [hworker]
      rfl
    · rw [hjob]
      intro hrequired
      have hrequired : r.worker.cleanupRequired = true := hrequired
      exact (workerErrorCleanupStatus_of_required hrequired).trans (h.cleaned hclean hrequired)
    · rw [hworker]
      exact h.noBody
  · refine persist_meets (fun _ _ hinv h => h.1.saveable hinv) ?_ fun _ _ _ _ _ _ _ _ _ => trivial
    intro r w _ hpre _
    obtain ⟨hcopy, herror, hclean, hbody⟩ := hpre
    exact ⟨{ hcopy.write with
      synced := Synced.write r w
      outcome := Or.inr herror
      cleaned := hclean }, hbody⟩

end Worker

end PackageHarness
