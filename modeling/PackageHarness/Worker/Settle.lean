/-
# PackageHarness.Worker.Settle — settling one job: cleanup, completion, delivery.

Everything here works on the worker's in-memory copy of one record, the local state of the `Settle`
routines, and leaves with a message when the job cannot be settled. `settleClaim` settles a job that
was just claimed, `settleRecovered` one that a restart found.
-/
import PackageHarness.Worker.Ports

namespace PackageHarness

open Interaction

/-- Configuration that belongs to the polling worker. -/
structure WorkerConfig where
  workerId : String
  harnessDnpName : String
  pollInterval : Duration
  heartbeatInterval : Duration
  cleanupTimeout : Duration

/-- What a started process runs with. -/
structure Deployment where
  runner : RunnerConfig
  worker : WorkerConfig

/-- `retry_delay`: capped exponential backoff with a jitter that depends on the worker id. -/
def retryDelay (base : Duration) (attempt : Nat) (workerId : String) : Duration :=
  let exponent := min (attempt - 1) 5
  let scaled := min (base * 2 ^ exponent) (.ofMillis 30000)
  let seed := workerId.toUTF8.data.foldl
    (fun value byte => (value * 31 + byte.toNat) % 2 ^ 32) attempt
  scaled + .ofMillis (seed % 251)

/-- `saturating_add(1)` on a `u32`. -/
def nextAttempt (attempt : Nat) : Nat := min (attempt + 1) (2 ^ 32 - 1)

/-! ## Updates of the record -/

namespace RunRecord

def isTarget (record : RunRecord) (package : PackageSummary) : Bool :=
  package.dnpName == record.request.package.dnpName

def hasWorkerError (error : WorkerError) (record : RunRecord) : RunRecord :=
  { record with worker := { record.worker with workerError := some error } }

def holdFor (kind : ManualRecoveryKind) (reason : String) (record : RunRecord) : RunRecord :=
  { record with worker := record.worker.setManualRecovery kind reason }

def withCompletion (body : String) (record : RunRecord) : RunRecord :=
  { record with worker := { record.worker with pendingCompletionBody := some body } }

def acknowledged (disposition : CompletionDisposition) (record : RunRecord) : RunRecord :=
  { record with worker := { record.worker with
      completionAcknowledged := true
      completionDisposition := some disposition.toText
      pendingCompletionBody := none
      manualRecovery := none
      claimToken := none } }

def released (record : RunRecord) : RunRecord :=
  { record with worker := { record.worker with
      claimToken := none
      pendingCompletionBody := none
      manualRecovery := none } }

/-- Whether a record that a restart finds is delivered at once. -/
def deliverable (record : RunRecord) : Bool :=
  record.worker.pendingCompletionBody.isSome || record.status == .completed && record.result.isSome

end RunRecord

def workerErrorCleanupStatus (record : RunRecord) : CleanupStatus :=
  if record.cleanup.status = .pending ∧ ¬ record.worker.cleanupRequired then .skipped
  else record.cleanup.status

/-- The error that `setWorkerError` stores, and the cleanup status that it settles on. -/
def recordWorkerError (code : WorkerErrorCode) (summary : String) (record : RunRecord) :
    RunRecord :=
  let record := if record.cleanup.status = .pending then
      { record with cleanup :=
          { record.cleanup with status := workerErrorCleanupStatus record } }
    else record
  record.hasWorkerError ⟨code, summary, workerErrorCleanupStatus record⟩

/-- The only outcome that a record may be completed with. -/
def completionOutcome (record : RunRecord) : Except String CompletionOutcome :=
  match record.result, record.worker.workerError with
  | some result, none =>
      if result.runId = record.id.value then .ok (.result result)
      else .error "persisted result runId does not match the claimed job"
  | none, some error => .ok (.workerError error)
  -- a result and a worker error exclude each other
  | none, none => .error "no normal result or worker error is available for completion"
  | some _, some _ => .error "record contains both a normal result and worker error"

namespace Worker

/-- Saves the in-memory record; a failure leaves with the caller's context. -/
def persist (site : SaveSite) (context : String) : Settle Unit := do
  let record ← .read
  match ← .run (onBehalf record.id (Runner.save site record)) with
  | .ok _ => pure ()
  | .error error =>
      let error := error.toText
      .throw s!"{context}: {error}"

def listInventory (purpose : InventoryUse) (context : String) : Settle (List PackageSummary) := do
  let record ← .read
  match ← .run (onBehalf record.id (Runner.listPackages purpose)) with
  | .ok packages => pure packages
  | .error error =>
      let error := error.toText
      .throw s!"{context}: {error}"

def mark (point : RunRecord → ProgramPoint) : Settle Unit := do
  let record ← .read
  .run (onBehalf record.id (Runner.enter (point record)))

/-! ## Cleanup -/

/-- Reconciles the target unless it never changed or its cleanup already passed. -/
def recoverTargetIfRequired (config : WorkerConfig) (cause : RecoveryCause) : Settle Unit := do
  let record ← .read
  if !record.worker.cleanupRequired ∨ record.cleanup.status = .passed then
    -- nothing to do, but the record is saved all the same
    persist (.recoveryState cause) "cannot persist recovery state"
  else if record.request.package.dnpName.value = config.harnessDnpName then
    .throw "refusing restart cleanup of the harness package"
  else do
    let packages ← listInventory .restartCheck "cannot inspect target during restart recovery"
    if packages.any fun package => record.isTarget package && package.isCore then
      .throw "refusing restart cleanup of a core package"
    else do
      .run (onBehalf record.id (Runner.publish .cleanup true))
      let (cleanup, finalPackages) ← .run (onBehalf record.id (Runner.reconcileTarget
        record.request.package.dnpName record.worker.targetRecovery
        record.evidence.initialPackages config.cleanupTimeout))
      .update (Runner.setCleanup cleanup finalPackages)
      -- a cleanup that failed is a result like any other: callers look at its status
      persist (.restartCleanup cause) "cannot persist restart cleanup result"

/-- Puts the record on hold and answers the redacted reason. -/
def markManualRecovery (ext : Externals) (kind : ManualRecoveryKind) (reason : String) :
    Settle String := do
  let reason := redactAndBound ext reason 500
  .update (RunRecord.holdFor kind reason)
  persist (.manualRecovery kind) "cannot persist manual recovery requirement"
  return reason

/-- `return Err(self.mark_manual_recovery(..).await?)`. -/
def pause (ext : Externals) (kind : ManualRecoveryKind) (reason : String) : Settle Unit := do
  let reason ← markManualRecovery ext kind reason
  .throw reason

/-- Reconciles the target; when that is not possible, the job is put on a cleanup hold. -/
def recoverOrPause (ext : Externals) (config : WorkerConfig) (cause : RecoveryCause)
    (context : String) : Settle Unit := do
  match ← (recoverTargetIfRequired config cause).attempt (δ := String) with
  | .ok _ => pure ()
  | .error recoveryError => pause ext .cleanup s!"{context}: {recoveryError}"

/-- Updates the record with the current time where `condition` holds of it. -/
def stampWhen (condition : RunRecord → Bool) (f : Timestamp → RunRecord → RunRecord) :
    Settle Unit := do
  let record ← .read
  if condition record then
    let time ← .run (ask .now)
    .update (f time)
  else
    pure ()

def setWorkerError (ext : Externals) (code : WorkerErrorCode) (summary : String) :
    Settle Unit := do
  stampWhen (·.status ≠ .completed) fun time record =>
    { record with status := .completed, finishedAt := some time }
  stampWhen (·.phase ≠ .finished) fun time record => record.transition .finished time
  .update (recordWorkerError code (redactAndBound ext summary 500))
  persist (.workerError code) "cannot persist worker error"

def releaseReconciledClaim (cause : RecoveryCause) : Settle Unit := do
  mark .releaseReconciledClaim
  .update RunRecord.released
  persist (.lostClaim cause) "cannot persist reconciled lost claim"

/-! ## Delivery -/

/-- Builds and persists the completion body, unless there is one already. -/
def prepareCompletion (config : WorkerConfig) : Settle Unit := do
  let record ← .read
  if record.worker.pendingCompletionBody.isSome then
    pure ()
  else
    match record.worker.claimToken with
    | none => .throw "local record lacks a claim token required for completion"
    | some claimToken => do
        let outcome ← .ofExcept (completionOutcome record)
        .update (RunRecord.withCompletion
          (CompleteRequest.body ⟨1, config.workerId, claimToken, outcome⟩))
        persist .completionBody "cannot persist completion body"

def retryDelivery (config : WorkerConfig) (attempt : Nat) : Settle (Nat ⊕ Unit) := do
  let attempt := nextAttempt attempt
  .run (ask (.sleep (retryDelay config.pollInterval attempt config.workerId)))
  return .inl attempt

def acknowledge (disposition : CompletionDisposition) : Settle Unit := do
  .update (RunRecord.acknowledged disposition)
  persist .acknowledgement "cannot persist completion acknowledgement"

/-- One delivery attempt of the persisted body. -/
def deliveryRound (ext : Externals) (config : WorkerConfig) (attempt : Nat) :
    Settle (Nat ⊕ Unit) := do
  let record ← .read
  match record.worker.pendingCompletionBody with
  | none => .throw "pending completion unexpectedly missing"
  | some body => do
      match ← .run (ask (.completeRaw record.id body)) with
      | .ok disposition => do
          acknowledge disposition
          return .inr ()
      | .error (.authentication _) =>
          .throw "Tropibot rejected worker authentication while completing a job"
      | .error (.completionConflict _ _) => do
          pause ext .completionConflict
            ("Tropibot rejected the persisted completion as conflicting; " ++
              "operator recovery is required")
          return .inr ()
      -- transient failures and rejected bodies are retried alike; only the log line differs
      | .error _ => retryDelivery config attempt

/-- `deliver_or_pause` is this with a log line for the error. -/
def deliverUntilTerminal (ext : Externals) (config : WorkerConfig) : Settle Unit := do
  mark .deliverUntilTerminal
  let record ← .read
  if record.worker.completionAcknowledged then
    pure ()
  else do
    prepareCompletion config
    .iterate (deliveryRound ext config) 0

/-! ## The two ways to settle a job -/

def unsupportedJobReason (config : WorkerConfig) : Settle (Option String) := do
  let record ← .read
  if record.request.package.dnpName.value = config.harnessDnpName then
    return some "refused to test the harness package itself"
  else do
    let packages ← listInventory .claimCheck "cannot validate claimed package safety"
    if packages.any fun package => record.isTarget package && package.isCore then
      return some "refused to test a core Dappnode package"
    else
      return none

/-- Replaces the in-memory copy by what the store holds. -/
def reload : Settle Unit := do
  let record ← .read
  match ← .run (onBehalf record.id (Runner.get record.id)) with
  | .error error =>
      let error := error.toText
      .throw s!"cannot reload executed job: {error}"
  | .ok none => .throw "executed job disappeared from local storage"
  | .ok (some executed) => .update fun _ => executed

def cleanupHoldReason : String :=
  "target cleanup failed; operator action is required before another job can be claimed"

/-- What follows a controller that failed: recovery of the target and a worker error. -/
def settleExecution (ext : Externals) (config : WorkerConfig)
    (execution : Except ControllerError Unit) : Settle Unit :=
  match execution with
  | .ok _ => pure ()
  | .error error => do
      recoverOrPause ext config .executionFailed "execution and cleanup recovery failed"
      let error := error.toText
      setWorkerError ext .localPersistenceFailed
        s!"execution stopped before a persisted result: {error}"

def executeAndSettle (ext : Externals) (deployment : Deployment) : Settle Unit := do
  let record ← .read
  let execution ← .run (onBehalf record.id (Runner.execute ext deployment.runner record.id))
  reload
  settleExecution ext deployment.worker execution
  if ← .run (ask .claimLost) then
    -- the claim is gone, so nothing is delivered; unlike after a restart, the status of the
    -- cleanup is not looked at before the release
    recoverOrPause ext deployment.worker .claimLost "claim was lost and cleanup recovery failed"
    releaseReconciledClaim .claimLost
  else do
    let record ← .read
    if Runner.cleanupFailed record then
      pause ext .cleanup cleanupHoldReason
    else
      deliverUntilTerminal ext deployment.worker

def settleClaim (ext : Externals) (deployment : Deployment) : Settle Unit := do
  match ← (unsupportedJobReason deployment.worker).attempt (δ := String) with
  -- the target was not touched, so there is nothing to clean up
  | .error error => do
      setWorkerError ext .unexpectedError error
      deliverUntilTerminal ext deployment.worker
  | .ok (some summary) => do
      setWorkerError ext .unsupportedJob summary
      deliverUntilTerminal ext deployment.worker
  | .ok none => executeAndSettle ext deployment

def interruptedSummary : String :=
  "worker restarted before this job completed; the job was not rerun"

def interruptedHoldReason : String :=
  "interrupted job cleanup failed; operator action is required"

def settleInterrupted (ext : Externals) (config : WorkerConfig) : Settle Unit := do
  let time ← .run (ask .now)
  .update fun record => record.interrupt time
  recoverOrPause ext config .restart "interrupted job cleanup recovery failed"
  let record ← .read
  if Runner.cleanupFailed record then
    pause ext .cleanup interruptedHoldReason
  else if ← .run (ask .claimLost) then
    releaseReconciledClaim .restart
  else do
    setWorkerError ext .interrupted interruptedSummary
    deliverUntilTerminal ext config

def settleRecovered (ext : Externals) (config : WorkerConfig) : Settle Unit := do
  mark .settleRecovered
  let record ← .read
  -- a finished run is delivered before its cleanup is looked at
  if record.deliverable then
    deliverUntilTerminal ext config
  else
    settleInterrupted ext config

end Worker

end PackageHarness
