/-
# PackageHarness.Protocol.Job — the life of one job, as the durable record shows it.

A `Job` is what the recovery and delivery protocol reads and writes of a run record. `Job.Sound` is
what holds of every durable job at all times; `Job.Evolves` is what two durable states of one job
have in common, the earlier one first. Both are stated once, for whichever defects the surroundings
avoid: a field that needs a defect to be absent says so.
-/
import PackageHarness.System.Machine

namespace PackageHarness

structure Job where
  request : RunRequest
  status : ExecutionStatus
  initialPackages : List PackageSummary
  cleanup : CleanupStatus
  result : Option HarnessResult
  worker : WorkerState

def RunRecord.job (record : RunRecord) : Job where
  request := record.request
  status := record.status
  initialPackages := record.evidence.initialPackages
  cleanup := record.cleanup.status
  result := record.result
  worker := record.worker

@[simp] theorem RunRecord.persisted_job (record : RunRecord) : record.persisted.job = record.job :=
  rfl

namespace Job

def target (job : Job) : DnpName := job.request.package.dnpName

/-- The recovery plan is the one that the run's preflight inventory calls for. -/
def Planned (preflight : RunId → Option (List PackageSummary)) (job : Job) : Prop :=
  preflight job.request.runId = some job.initialPackages ∧
    job.worker.targetRecovery = Runner.recoveryPlanFor job.initialPackages job.target

/-- The job has this outcome and no other. -/
def Concludes (job : Job) : CompletionOutcome → Prop
  | .result result => job.result = some result ∧ job.worker.workerError = none
  | .workerError error => job.result = none ∧ job.worker.workerError = some error

/-- The text is a completion of the job with its outcome. -/
def Renders (job : Job) (body : String) : Prop :=
  ∃ outcome workerId claimToken, job.Concludes outcome ∧
    body = CompleteRequest.body ⟨1, workerId, claimToken, outcome⟩

/-- The target is as it was before the run, or was never changed. -/
def Clean (job : Job) : Prop := job.worker.cleanupRequired = true → job.cleanup = .passed

/-! ## What holds of every durable job -/

structure Sound (ext : Externals) (avoided : Defect → Prop)
    (preflight : RunId → Option (List PackageSummary)) (job : Job) : Prop where
  -- the target and its cleanup
  untouched : job.worker.cleanupRequired = false → job.cleanup = .pending ∨ job.cleanup = .skipped
  touched : job.worker.cleanupRequired = true → job.cleanup ≠ .skipped
  planned : job.worker.cleanupRequired = true → job.Planned preflight
  settled : job.result.isSome ∨ job.worker.workerError.isSome → job.cleanup ≠ .pending
  -- the outcome and its completion
  concluded : ∀ result, job.result = some result →
    job.status = .completed ∧ result.runId = job.request.runId.value
  rendered : ∀ body, job.worker.pendingCompletionBody = some body → job.Renders body
  acknowledged : job.worker.completionAcknowledged = true → job.worker.claimToken = none
  quiet : job.worker.claimToken = none →
    job.worker.pendingCompletionBody = none ∧ job.worker.manualRecovery = none
  conflict : job.worker.manualRecoveryKind = some .completionConflict →
    job.worker.pendingCompletionBody.isSome
  interrupted : ∀ error, job.worker.workerError = some error → error.code = .interrupted →
    error.summary = redactAndBound ext Worker.interruptedSummary 500
  -- what a defect can break
  exclusive : avoided .doublesOutcome → job.result = none ∨ job.worker.workerError = none
  delivered : avoided .redeliversUncleanResult → job.worker.pendingCompletionBody.isSome →
    job.Clean
  freed : avoided .redeliversUncleanResult → avoided .releasesUncleanClaim →
    job.worker.claimToken = none → job.Clean
  held : avoided .holdsUntouchedTarget → job.worker.manualRecoveryKind = some .cleanup →
    job.worker.cleanupRequired = true

section Sound

variable {ext : Externals} {avoided : Defect → Prop}
  {preflight : RunId → Option (List PackageSummary)} {job : Job}

theorem Sound.token_of_pending (h : job.Sound ext avoided preflight)
    (hbody : job.worker.pendingCompletionBody.isSome) : job.worker.claimToken.isSome := by
  by_cases htoken : job.worker.claimToken = none
  · have hnone := (h.quiet htoken).1
    simp [hnone] at hbody
  · exact Option.isSome_iff_ne_none.mpr htoken

theorem Sound.not_acknowledged (h : job.Sound ext avoided preflight)
    (htoken : job.worker.claimToken.isSome) : job.worker.completionAcknowledged = false := by
  by_cases hacknowledged : job.worker.completionAcknowledged = true
  · have hnone := h.acknowledged hacknowledged
    simp [hnone] at htoken
  · simpa using hacknowledged

/-- A job blocks the worker exactly as long as it holds its claim token. -/
theorem Sound.requiresWorkerAttention {record : RunRecord}
    (h : record.job.Sound ext avoided preflight) :
    record.requiresWorkerAttention = record.worker.claimToken.isSome := by
  unfold RunRecord.requiresWorkerAttention
  by_cases htoken : record.worker.claimToken = none
  · have hquiet := h.quiet htoken
    simp only [RunRecord.job] at hquiet
    simp [hquiet.1, hquiet.2, htoken]
  · have htoken := Option.isSome_iff_ne_none.mpr htoken
    have hacknowledged := h.not_acknowledged htoken
    simp only [RunRecord.job] at hacknowledged
    simp [htoken, hacknowledged]

/-- Noting the inventory of a run that has none does not disturb any job. -/
theorem Sound.note {preflight' : RunId → Option (List PackageSummary)}
    (h : job.Sound ext avoided preflight)
    (hkeep : ∀ run packages, preflight run = some packages → preflight' run = some packages) :
    job.Sound ext avoided preflight' :=
  { h with planned := fun hrequired =>
      ⟨hkeep _ _ (h.planned hrequired).1, (h.planned hrequired).2⟩ }

end Sound

/-! ## What later states keep -/

structure Evolves (avoided : Defect → Prop) (old new : Job) : Prop where
  request : new.request = old.request
  required : old.worker.cleanupRequired = true → new.worker.cleanupRequired = true
  passed : old.cleanup = .passed → new.cleanup = .passed
  result : ∀ result, old.result = some result → new.result = some result
  failed : old.worker.workerError.isSome → new.worker.workerError.isSome
  body : ∀ body, old.worker.pendingCompletionBody = some body →
    new.worker.pendingCompletionBody = some body ∨ new.worker.completionAcknowledged = true
  acknowledged : old.worker.completionAcknowledged = true →
    new.worker.completionAcknowledged = true
  token : old.worker.claimToken = none → new.worker.claimToken = none
  error : avoided .replacesOutcome → ∀ error, old.worker.workerError = some error →
    ∃ error', new.worker.workerError = some error' ∧ error'.code = error.code ∧
      error'.summary = error.summary

variable {avoided : Defect → Prop} {old new newer : Job}

theorem Evolves.refl (job : Job) : job.Evolves avoided job where
  request := rfl
  required := id
  passed := id
  result := fun _ h => h
  failed := id
  body := fun _ h => Or.inl h
  acknowledged := id
  token := id
  error := fun _ error h => ⟨error, h, rfl, rfl⟩

theorem Evolves.trans (h : old.Evolves avoided new) (h' : new.Evolves avoided newer) :
    old.Evolves avoided newer where
  request := h'.request.trans h.request
  required := fun hold => h'.required (h.required hold)
  passed := fun hold => h'.passed (h.passed hold)
  result := fun result hold => h'.result result (h.result result hold)
  failed := fun hold => h'.failed (h.failed hold)
  body := by
    intro body hold
    rcases h.body body hold with hbody | hacknowledged
    · exact h'.body body hbody
    · exact Or.inr (h'.acknowledged hacknowledged)
  acknowledged := fun hold => h'.acknowledged (h.acknowledged hold)
  token := fun hold => h'.token (h.token hold)
  error := by
    intro havoided error hold
    obtain ⟨error', herror', hcode', hsummary'⟩ := h.error havoided error hold
    obtain ⟨error'', herror'', hcode'', hsummary''⟩ := h'.error havoided error' herror'
    exact ⟨error'', herror'', hcode''.trans hcode', hsummary''.trans hsummary'⟩

end Job

end PackageHarness
