/-
# PackageHarness.Coordinator.Protocol — the worker protocol's messages and failures.

The worker talks to three coordinator endpoints. Their typed answers are what the worker branches
on; a completion is built once and then only handled as its serialized text.
-/
import PackageHarness.Coordinator.Json

namespace PackageHarness

/-- A status as the HTTP library displays it: the code and its canonical reason. -/
structure StatusCode where
  code : Nat
  reason : String

def StatusCode.toText (status : StatusCode) : String := s!"{status.code} {status.reason}"

/-- Validated claim retained by the local worker record before execution. -/
structure ClaimedJob where
  request : RunRequest
  claimToken : String

inductive ClaimOutcome
  | noWork
  | claimed (job : ClaimedJob)

inductive CompletionDisposition
  | recorded
  | duplicate

def CompletionDisposition.toText : CompletionDisposition → String
  | recorded => "recorded"
  | duplicate => "duplicate"

/-- Bounded, protocol-aware HTTP failures. -/
inductive CoordinatorError
  | authentication (status : StatusCode)
  | unresolvedJob
  | claimLost (status : StatusCode)
  | completionConflict (status : StatusCode) (message : String)
  | transient (message : String)
  | rejected (status : StatusCode) (message : String)
  | protocol (message : String)
  | url (message : String)

namespace CoordinatorError

def toText : CoordinatorError → String
  | authentication status =>
      let status := status.toText
      s!"coordinator authentication was rejected ({status})"
  | unresolvedJob => "coordinator reports this worker already has an unresolved job"
  | claimLost status =>
      let status := status.toText
      s!"coordinator no longer recognizes the current claim ({status})"
  | completionConflict status message =>
      let status := status.toText
      s!"coordinator rejected completion ({status}): {message}"
  | transient message => s!"transient coordinator failure: {message}"
  | rejected status message =>
      let status := status.toText
      s!"coordinator rejected request ({status}): {message}"
  | protocol message => s!"invalid coordinator protocol: {message}"
  | url message => s!"invalid coordinator URL: {message}"

end CoordinatorError

/-- What a run is completed with. A worker error is sent with the fields of the stored one. -/
inductive CompletionOutcome
  | result (result : HarnessResult)
  | workerError (error : WorkerError)

structure CompleteRequest where
  schemaVersion : Nat
  workerId : String
  claimToken : String
  outcome : CompletionOutcome

open Json

def CompletionOutcome.toJson : CompletionOutcome → Json
  | .result outcome => object
      [("type", string "result"),
       ("result", outcome.toJson)]
  | .workerError error => object
      [("type", string "worker_error"),
       ("code", error.code.toJson),
       ("summary", string error.summary),
       ("cleanupStatus", error.cleanupStatus.toJson)]

def CompleteRequest.toJson (request : CompleteRequest) : Json := object
  [("schemaVersion", number request.schemaVersion),
   ("workerId", string request.workerId),
   ("claimToken", string request.claimToken),
   ("outcome", request.outcome.toJson)]

/-- The exact text that is persisted and sent. -/
def CompleteRequest.body (request : CompleteRequest) : String := request.toJson.render

/-- A completion with a worker error names the error's code. -/
theorem CompleteRequest.code_in_body {schemaVersion : Nat} {workerId claimToken : String}
    {error : WorkerError} :
    error.code.toJson.render.toList <:+:
      (body ⟨schemaVersion, workerId, claimToken, .workerError error⟩).toList := by
  have hcode : error.code.toJson.render.toList <:+:
      (CompletionOutcome.workerError error).toJson.render.toList :=
    render_member "code" (by simp)
  exact hcode.trans (render_member "outcome" (by simp))

end PackageHarness
