/-
# PackageHarness.Protocol.Updates — which updates of the worker's copy keep it safe to save.

One lemma for each update of the settlement code. `Ledger.Accepts` speaks about the durable record
and the copy at once, so each lemma says what the update needs of the copy alone.
-/
import PackageHarness.Protocol.Execution

namespace PackageHarness

variable {ext : Externals} {avoided : Defect → Prop} {ledger : Ledger} {record : RunRecord}

/-! ## What soundness says about cleanup -/

namespace Job

variable {preflight : RunId → Option (List PackageSummary)} {job : Job}

/-- The cleanup of a changed target has been decided. -/
def Reconciled (job : Job) : Prop := job.worker.cleanupRequired = true → job.cleanup.Definite

/-- A job with an outcome has its cleanup decided. -/
theorem Sound.reconciled (h : job.Sound ext avoided preflight)
    (houtcome : job.result.isSome ∨ job.worker.workerError.isSome) : job.Reconciled := by
  intro hrequired
  have hpending := h.settled houtcome
  have hskipped := h.touched hrequired
  unfold CleanupStatus.Definite
  cases hstatus : job.cleanup <;> simp_all

/-- A cleanup that failed was required. -/
theorem Sound.required_of_failed (h : job.Sound ext avoided preflight)
    (hfailed : job.cleanup = .failed ∨ job.cleanup = .timedOut) :
    job.worker.cleanupRequired = true := by
  cases hneeds : job.worker.cleanupRequired with
  | true => rfl
  | false =>
      rcases h.untouched hneeds with hstatus | hstatus <;>
        rcases hfailed with hfailed | hfailed <;> simp [hfailed] at hstatus

/-- A pending body comes from an outcome. -/
theorem Sound.outcome_of_pending (h : job.Sound ext avoided preflight)
    (hbody : job.worker.pendingCompletionBody.isSome) :
    job.result.isSome ∨ job.worker.workerError.isSome := by
  obtain ⟨body, hsome⟩ := Option.isSome_iff_exists.mp hbody
  obtain ⟨outcome, _, _, hconcludes, _⟩ := h.rendered body hsome
  cases outcome with
  | result result => exact Or.inl (by rw [hconcludes.1]; rfl)
  | workerError error => exact Or.inr (by rw [hconcludes.2]; rfl)

end Job

theorem cleanupFailed_iff :
    Runner.cleanupFailed record = true ↔
      record.job.cleanup = .failed ∨ record.job.cleanup = .timedOut := by
  unfold Runner.cleanupFailed RunRecord.job
  cases record.cleanup.status <;> simp

theorem Job.Reconciled.clean (h : record.job.Reconciled)
    (hfine : Runner.cleanupFailed record = false) : record.job.Clean := by
  intro hrequired
  rcases h hrequired with hstatus | hstatus | hstatus
  · exact hstatus
  · simp [cleanupFailed_iff.mpr (Or.inl hstatus)] at hfine
  · simp [cleanupFailed_iff.mpr (Or.inr hstatus)] at hfine

/-! ## Updates -/

namespace Ledger.Accepts

theorem of_durable (hinv : ledger.Consistent ext avoided)
    (hdurable : ledger.store record.id = some record.persisted) :
    ledger.Accepts ext avoided record where
  durable := ⟨_, hdurable, Job.Evolves.refl _⟩
  sound := by
    have hsound := hinv.sound hdurable
    exact hsound

theorem write (h : ledger.Accepts ext avoided record) :
    (ledger.write record).Accepts ext avoided record :=
  ⟨⟨record.persisted, RunStore.write_same .., Job.Evolves.refl _⟩, h.sound⟩

/-- The durable record has no body and no worker error that the copy lacks. -/
theorem old (h : ledger.Accepts ext avoided record) (htoken : record.worker.claimToken.isSome)
    (hbody : record.worker.pendingCompletionBody = none) :
    ∃ old, ledger.store record.id = some old ∧ old.job.Evolves avoided record.job ∧
      old.worker.pendingCompletionBody = none := by
  obtain ⟨old, hold, hevolves⟩ := h.durable
  exact ⟨old, hold, hevolves, (Carried.old_open hevolves h.sound htoken hbody).2⟩

theorem complete (h : ledger.Accepts ext avoided record) (time : Timestamp) :
    ledger.Accepts ext avoided { record with status := .completed, finishedAt := some time } where
  durable := by
    obtain ⟨old, hold, hevolves⟩ := h.durable
    exact ⟨old, hold, { hevolves with request := hevolves.request }⟩
  sound := { h.sound with
    concluded := fun result hresult => ⟨rfl, (h.sound.concluded result hresult).2⟩ }

theorem interrupt (h : ledger.Accepts ext avoided record) (hresult : record.result = none)
    (time : Timestamp) : ledger.Accepts ext avoided (record.interrupt time) where
  durable := by
    obtain ⟨old, hold, hevolves⟩ := h.durable
    exact ⟨old, hold, { hevolves with request := hevolves.request }⟩
  sound := { h.sound with
    concluded := fun result hsome => by
      have hsome : record.result = some result := hsome
      simp [hresult] at hsome }

/-- The result of a reconciliation, for a copy without a completion body. -/
theorem setCleanup (h : ledger.Accepts ext avoided record)
    (htoken : record.worker.claimToken.isSome)
    (hbody : record.worker.pendingCompletionBody = none)
    (hrequired : record.worker.cleanupRequired = true) (hpassed : record.cleanup.status ≠ .passed)
    {cleanup : CleanupResult} (hdefinite : cleanup.status.Definite)
    (finalPackages : List PackageSummary) :
    ledger.Accepts ext avoided (Runner.setCleanup cleanup finalPackages record) where
  durable := by
    obtain ⟨old, hold, hevolves⟩ := h.durable
    -- a passed cleanup is never reconciled again
    refine ⟨old, hold, { hevolves with passed := fun hold => ?_ }⟩
    exact absurd (hevolves.passed hold) hpassed
  sound := { h.sound with
    untouched := fun huntouched => by
      have huntouched : record.worker.cleanupRequired = false := huntouched
      simp [hrequired] at huntouched
    touched := fun _ => by
      show cleanup.status ≠ .skipped
      rcases hdefinite with hstatus | hstatus | hstatus <;> simp [hstatus]
    settled := fun _ => by
      show cleanup.status ≠ .pending
      rcases hdefinite with hstatus | hstatus | hstatus <;> simp [hstatus]
    delivered := fun _ hsome => absurd hsome (Option.not_isSome_iff_eq_none.mpr hbody)
    freed := fun _ _ hfree => absurd hfree (Option.isSome_iff_ne_none.mp htoken) }

theorem holdFor (h : ledger.Accepts ext avoided record) {kind : ManualRecoveryKind}
    (htoken : record.worker.claimToken.isSome)
    (hconflict : kind = .completionConflict → record.worker.pendingCompletionBody.isSome)
    (hcleanup : avoided .holdsUntouchedTarget → kind = .cleanup →
      record.worker.cleanupRequired = true) (reason : String) :
    ledger.Accepts ext avoided (record.holdFor kind reason) where
  durable := by
    obtain ⟨old, hold, hevolves⟩ := h.durable
    exact ⟨old, hold, { hevolves with request := hevolves.request }⟩
  sound := { h.sound with
    quiet := fun hfree => absurd hfree (Option.isSome_iff_ne_none.mp htoken)
    conflict := fun hkind => hconflict (Option.some.inj hkind)
    held := fun havoided hkind => hcleanup havoided (Option.some.inj hkind) }

/-- A body of the copy's only outcome. -/
theorem withCompletion (h : ledger.Accepts ext avoided record) {outcome : CompletionOutcome}
    {workerId claimToken : String} (htoken : record.worker.claimToken = some claimToken)
    (hbody : record.worker.pendingCompletionBody = none)
    (hconcludes : record.job.Concludes outcome)
    (hclean : avoided .redeliversUncleanResult → record.job.Clean) :
    ledger.Accepts ext avoided
      (record.withCompletion (CompleteRequest.body ⟨1, workerId, claimToken, outcome⟩)) where
  durable := by
    -- the durable record has no body yet, so none is replaced
    obtain ⟨old, hold, hevolves, hnone⟩ := h.old (by simp [htoken]) hbody
    refine ⟨old, hold, { hevolves with body := fun body hsome => ?_ }⟩
    exact absurd hsome (Option.eq_none_iff_forall_ne_some.mp hnone body)
  sound := { h.sound with
    rendered := fun body hsome => by
      cases hsome
      exact ⟨outcome, workerId, claimToken, hconcludes, rfl⟩
    quiet := fun hfree => by
      have hfree : record.worker.claimToken = none := hfree
      simp [htoken] at hfree
    conflict := fun _ => rfl
    delivered := fun havoided _ => hclean havoided }

/-- An acknowledged completion ends the claim. -/
theorem acknowledged (h : ledger.Accepts ext avoided record)
    (hbody : record.worker.pendingCompletionBody.isSome) (disposition : CompletionDisposition) :
    ledger.Accepts ext avoided (record.acknowledged disposition) where
  durable := by
    obtain ⟨old, hold, hevolves⟩ := h.durable
    exact ⟨old, hold, { hevolves with
      body := fun _ _ => Or.inr rfl
      acknowledged := fun _ => rfl
      token := fun _ => rfl }⟩
  sound := { h.sound with
    rendered := fun body hnone => by cases hnone
    acknowledged := fun _ => rfl
    quiet := fun _ => ⟨rfl, rfl⟩
    conflict := fun hkind => by cases hkind
    delivered := fun _ hnone => by cases hnone
    freed := fun hredelivers _ _ => h.sound.delivered hredelivers hbody
    held := fun _ hkind => by cases hkind }

/-- A lost claim is released for a target that is clean, as far as the defects allow. -/
theorem released (h : ledger.Accepts ext avoided record)
    (htoken : record.worker.claimToken.isSome)
    (hbody : record.worker.pendingCompletionBody = none)
    (hclean : avoided .releasesUncleanClaim → record.job.Clean) :
    ledger.Accepts ext avoided record.released where
  durable := by
    obtain ⟨old, hold, hevolves, hnone⟩ := h.old htoken hbody
    refine ⟨old, hold, { hevolves with body := fun body hsome => ?_, token := fun _ => rfl }⟩
    exact absurd hsome (Option.eq_none_iff_forall_ne_some.mp hnone body)
  sound := { h.sound with
    rendered := fun body hnone => by cases hnone
    acknowledged := fun _ => rfl
    quiet := fun _ => ⟨rfl, rfl⟩
    conflict := fun hkind => by cases hkind
    delivered := fun _ hnone => by cases hnone
    freed := fun _ hreleases _ => hclean hreleases
    held := fun _ hkind => by cases hkind }

end Ledger.Accepts

/-! ## Worker errors -/

/-- A worker error changes two fields of the job. -/
theorem recordWorkerError_job (code : WorkerErrorCode) (text : String) (record : RunRecord) :
    ∃ error : WorkerError, error.code = code ∧ error.summary = text ∧
      (recordWorkerError code text record).job = { record.job with
        cleanup := workerErrorCleanupStatus record
        worker := { record.worker with workerError := some error } } := by
  unfold recordWorkerError
  split
  · exact ⟨⟨code, text, _⟩, rfl, rfl, rfl⟩
  · next hdecided =>
      refine ⟨⟨code, text, workerErrorCleanupStatus record⟩, rfl, rfl, ?_⟩
      have hsame : record.job.cleanup = workerErrorCleanupStatus record :=
        (if_neg fun h => hdecided h.1).symm
      exact congrArg (fun status => ({ record.job with
        cleanup := status
        worker := { record.worker with
          workerError := some ⟨code, text, workerErrorCleanupStatus record⟩ } } : Job)) hsame

theorem workerErrorCleanupStatus_of_required (h : record.worker.cleanupRequired = true) :
    workerErrorCleanupStatus record = record.job.cleanup :=
  if_neg fun hboth => hboth.2 h

theorem workerErrorCleanupStatus_of_untouched (h : record.worker.cleanupRequired = false)
    (hstatus : record.job.cleanup = .pending ∨ record.job.cleanup = .skipped) :
    workerErrorCleanupStatus record = .skipped := by
  unfold workerErrorCleanupStatus
  rcases hstatus with hstatus | hstatus
  · exact if_pos ⟨hstatus, by simp [h]⟩
  · split
    · rfl
    · exact hstatus

/-- A worker error for a copy without a body; an earlier one is kept as far as the defects allow. -/
theorem Ledger.Accepts.recordWorkerError {code : WorkerErrorCode} {text : String}
    (h : ledger.Accepts ext avoided record) (htoken : record.worker.claimToken.isSome)
    (hbody : record.worker.pendingCompletionBody = none) (hreconciled : record.job.Reconciled)
    (hexclusive : avoided .doublesOutcome → record.result = none)
    (hreplaces : avoided .replacesOutcome → ∀ error, record.worker.workerError = some error →
      error.code = code ∧ error.summary = text)
    (hinterrupted : code = .interrupted →
      text = redactAndBound ext Worker.interruptedSummary 500) :
    ledger.Accepts ext avoided (recordWorkerError code text record) := by
  obtain ⟨error, hcode, hsummary, hjob⟩ := recordWorkerError_job code text record
  have hid : (PackageHarness.recordWorkerError code text record).id = record.id :=
    congrArg (fun job : Job => job.request.runId) hjob
  constructor
  · rw [hid, hjob]
    obtain ⟨old, hold, hevolves⟩ := h.durable
    refine ⟨old, hold, { hevolves with
      passed := fun hpassed => ?_, failed := fun _ => rfl, error := fun havoided old hold => ?_ }⟩
    · -- the status is settled only where it is pending
      have hnow : record.job.cleanup = .passed := hevolves.passed hpassed
      show workerErrorCleanupStatus record = .passed
      exact (if_neg fun hboth => by simp [RunRecord.job, hboth.1] at hnow).trans hnow
    · -- the durable error has the copy's code and summary, and those are stored again
      obtain ⟨error', herror', hcode', hsummary'⟩ := hevolves.error havoided old hold
      obtain ⟨hcode'', hsummary''⟩ := hreplaces havoided error' herror'
      refine ⟨error, rfl, ?_, ?_⟩
      · rw [hcode, ← hcode'', hcode']
      · rw [hsummary, ← hsummary'', hsummary']
  · rw [hjob]
    exact { h.sound with
      untouched := fun huntouched =>
        Or.inr (workerErrorCleanupStatus_of_untouched huntouched (h.sound.untouched huntouched))
      touched := fun hrequired => by
        show workerErrorCleanupStatus record ≠ .skipped
        rw [workerErrorCleanupStatus_of_required hrequired]
        exact h.sound.touched hrequired
      -- a changed target is reconciled by now, an untouched one counts as skipped
      settled := fun _ => by
        show workerErrorCleanupStatus record ≠ .pending
        cases hneeds : record.worker.cleanupRequired with
        | true =>
            rw [workerErrorCleanupStatus_of_required hneeds]
            rcases hreconciled hneeds with hstatus | hstatus | hstatus <;> simp [hstatus]
        | false =>
            rw [workerErrorCleanupStatus_of_untouched hneeds (h.sound.untouched hneeds)]
            simp
      rendered := fun body hsome =>
        absurd hsome (Option.eq_none_iff_forall_ne_some.mp hbody body)
      interrupted := fun found hfound hinterrupt => by
        cases hfound
        rw [hsummary]
        exact hinterrupted (hcode.symm.trans hinterrupt)
      exclusive := fun havoided => Or.inl (hexclusive havoided)
      delivered := fun _ hsome => absurd hsome (Option.not_isSome_iff_eq_none.mpr hbody)
      freed := fun _ _ hfree => absurd hfree (Option.isSome_iff_ne_none.mp htoken) }

end PackageHarness
