/-
# PackageHarness.Model.Run — the durable run record and the updates the code makes to it.

A run record is the unit of persistence: one file per run, replaced as a whole. The updates below
are the in-memory mutations of the source, one definition for each; which of them reach the disk,
and when, is decided by the code that saves the record.
-/
import PackageHarness.Model.Evidence

namespace PackageHarness

/-- Why a worker could not produce a normal harness result. -/
inductive WorkerErrorCode
  | interrupted
  | unsupportedJob
  | cleanupFailed
  | localPersistenceFailed
  | unexpectedError
  deriving DecidableEq

structure WorkerError where
  code : WorkerErrorCode
  summary : String
  cleanupStatus : CleanupStatus

/-- Operator action required before the worker may accept another claim. -/
inductive ManualRecoveryKind
  | cleanup
  | completionConflict
  deriving DecidableEq

structure ManualRecovery where
  kind : ManualRecoveryKind
  reason : String

/-- Destructive target state that restart recovery must reconcile. -/
inductive TargetRecoveryPlan
  | remove
  | restoreLatest
  deriving DecidableEq

/-- Delivery state owned by the polling worker. -/
structure WorkerState where
  claimToken : Option String := none
  cleanupRequired : Bool := false
  targetRecovery : TargetRecoveryPlan := .remove
  workerError : Option WorkerError := none
  pendingCompletionBody : Option String := none
  completionAcknowledged : Bool := false
  completionDisposition : Option String := none
  manualRecovery : Option ManualRecovery := none

namespace WorkerState

def manualRecoveryKind (worker : WorkerState) : Option ManualRecoveryKind :=
  worker.manualRecovery.map (·.kind)

def manualRecoveryReason (worker : WorkerState) : Option String :=
  worker.manualRecovery.map (·.reason)

def setManualRecovery (worker : WorkerState) (kind : ManualRecoveryKind) (reason : String) :
    WorkerState :=
  { worker with manualRecovery := some ⟨kind, reason⟩ }

def clearManualRecovery (worker : WorkerState) : WorkerState :=
  { worker with manualRecovery := none }

end WorkerState

structure PhaseTransition where
  phase : ExecutionPhase
  at_ : Timestamp

structure RunEvidence where
  initialPackages : List PackageSummary := []
  finalPackages : List PackageSummary := []
  baseline : Option CaptureEvidence := none
  candidate : Option CaptureEvidence := none
  comparison : Option ComparisonEvidence := none
  logAnalysis : Option LogAnalysisResult := none

structure RunRecord where
  request : RunRequest
  status : ExecutionStatus
  phase : ExecutionPhase
  createdAt : Timestamp
  startedAt : Option Timestamp
  finishedAt : Option Timestamp
  phaseHistory : List PhaseTransition
  evidence : RunEvidence
  errors : List RunError
  cleanup : CleanupResult
  result : Option HarnessResult
  worker : WorkerState

/-! ## Serialization

`PreviewSummary.resolved_ref` is skipped by the serializer, so what is read back from disk lacks
it. `persisted` is the record as a reader of its file sees it. -/

def CaptureEvidence.persisted (capture : CaptureEvidence) : CaptureEvidence :=
  { capture with
    preview := capture.preview.map fun preview => { preview with resolvedRef := none } }

def RunEvidence.persisted (evidence : RunEvidence) : RunEvidence :=
  { evidence with
    baseline := evidence.baseline.map CaptureEvidence.persisted
    candidate := evidence.candidate.map CaptureEvidence.persisted }

namespace RunRecord

def persisted (record : RunRecord) : RunRecord :=
  { record with evidence := record.evidence.persisted }

abbrev id (record : RunRecord) : RunId := record.request.runId

/-! ## Updates -/

def new (request : RunRequest) (now : Timestamp) : RunRecord where
  request := request
  status := .queued
  phase := .queued
  createdAt := now
  startedAt := none
  finishedAt := none
  phaseHistory := [⟨.queued, now⟩]
  evidence := {}
  errors := []
  cleanup := ⟨.pending, [], none⟩
  result := none
  worker := {}

/-- A record for a job atomically claimed from the coordinator. -/
def claimed (request : RunRequest) (claimToken : String) (now : Timestamp) : RunRecord :=
  { new request now with worker := { claimToken := some claimToken } }

def transition (record : RunRecord) (phase : ExecutionPhase) (now : Timestamp) : RunRecord :=
  { record with phase := phase, phaseHistory := record.phaseHistory ++ [⟨phase, now⟩] }

def start (record : RunRecord) (now : Timestamp) : RunRecord :=
  { record with status := .running, startedAt := some now }

def interrupt (record : RunRecord) (now : Timestamp) : RunRecord :=
  { record with
    status := .interrupted
    finishedAt := some now
    errors := record.errors ++
      [⟨.interruptedOnRestart,
        "run was active when the harness restarted; it was not repeated", record.phase⟩] }

/-- Whether this record prevents the process from claiming another job. -/
def requiresWorkerAttention (record : RunRecord) : Bool :=
  record.worker.manualRecovery.isSome || record.worker.pendingCompletionBody.isSome ||
    record.worker.claimToken.isSome && !record.worker.completionAcknowledged

/-! ## What serialization keeps -/

section Persisted

variable (record : RunRecord)

@[simp] theorem persisted_id : record.persisted.id = record.id := rfl
@[simp] theorem persisted_request : record.persisted.request = record.request := rfl
@[simp] theorem persisted_status : record.persisted.status = record.status := rfl
@[simp] theorem persisted_phase : record.persisted.phase = record.phase := rfl
@[simp] theorem persisted_cleanup : record.persisted.cleanup = record.cleanup := rfl
@[simp] theorem persisted_result : record.persisted.result = record.result := rfl
@[simp] theorem persisted_worker : record.persisted.worker = record.worker := rfl
@[simp] theorem persisted_initialPackages :
    record.persisted.evidence.initialPackages = record.evidence.initialPackages := rfl

@[simp] theorem persisted_requiresWorkerAttention :
    record.persisted.requiresWorkerAttention = record.requiresWorkerAttention := rfl

end Persisted

end RunRecord

theorem CaptureEvidence.persisted_persisted (capture : CaptureEvidence) :
    capture.persisted.persisted = capture.persisted := by
  simp [CaptureEvidence.persisted, Function.comp_def]

theorem RunEvidence.persisted_persisted (evidence : RunEvidence) :
    evidence.persisted.persisted = evidence.persisted := by
  simp [RunEvidence.persisted, Function.comp_def, CaptureEvidence.persisted_persisted]

/-- Writing back what was read changes nothing. -/
@[simp] theorem RunRecord.persisted_persisted (record : RunRecord) :
    record.persisted.persisted = record.persisted := by
  simp [RunRecord.persisted, RunEvidence.persisted_persisted]

end PackageHarness
