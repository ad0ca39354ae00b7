/-
# PackageHarness.Worker.Heartbeat — the heartbeat task, and what it shares with the runner.

The task runs next to the worker for as long as a job is supervised. It tells the coordinator how
far the job is, and leaves the coordinator's answer where the controller looks at its safe boundaries.
`BeatRequest` has one request for each access of the task to something that it shares.
-/
import PackageHarness.Coordinator.Protocol
import PackageHarness.Runner.Ports

namespace PackageHarness

open Interaction

/-! ## The shared progress -/

/-- Latest locally persisted execution state observed by the heartbeat task. -/
structure ProgressSnapshot where
  phase : ExecutionPhase
  cleanupRequired : Bool

/-- In-memory bridge between the runner and the independent heartbeat task. -/
structure WorkerProgress where
  snapshot : ProgressSnapshot := ⟨.queued, false⟩
  cancelRequested : Bool := false
  claimLost : Bool := false

namespace WorkerProgress

def requestCancellation (progress : WorkerProgress) : WorkerProgress :=
  { progress with cancelRequested := true }

def markClaimLost (progress : WorkerProgress) : WorkerProgress :=
  { progress with claimLost := true }

def publish (phase : ExecutionPhase) (cleanupRequired : Bool) (progress : WorkerProgress) :
    WorkerProgress :=
  { progress with snapshot := ⟨phase, cleanupRequired⟩ }

def control (progress : WorkerProgress) : RunControl :=
  if progress.claimLost then .claimLost
  else if progress.cancelRequested then .cancelRequested
  else .proceed

end WorkerProgress

/-! ## The task -/

/-- Result of one heartbeat request. -/
inductive HeartbeatOutcome
  | proceed
  | cancelRequested
  | claimLost

/-- What the coordinator is told by one heartbeat. -/
structure Heartbeat where
  jobId : RunId
  claimToken : String
  phase : String
  cleanupRequired : Bool

inductive BeatRequest
  | tick
  | stopped
  | snapshot
  | heartbeat (sent : Heartbeat)
  | requestCancellation
  | markClaimLost
  /-- The log line of an acknowledged heartbeat. -/
  | logAcknowledged (snapshot : ProgressSnapshot)

@[reducible] def BeatRequest.Answer : BeatRequest → Type
  | stopped => Bool
  | snapshot => ProgressSnapshot
  | heartbeat _ => Except CoordinatorError HeartbeatOutcome
  | tick | requestCancellation | markClaimLost | logAcknowledged _ => Unit

abbrev Beat := Program BeatRequest BeatRequest.Answer

namespace HeartbeatTask

def ask (request : BeatRequest) : Beat request.Answer := Program.perform request

/-- What decides whether an acknowledged heartbeat is logged. -/
structure Tally where
  successfulSinceLog : Nat := 0
  lastLoggedPhase : Option ExecutionPhase := none

/-- An acknowledgement is logged in each new phase, and every third time. -/
def acknowledge (tally : Tally) (snapshot : ProgressSnapshot) : Beat Tally := do
  let successful := min (tally.successfulSinceLog + 1) (2 ^ 32 - 1)
  if tally.lastLoggedPhase ≠ some snapshot.phase ∨ 3 ≤ successful then
    ask (.logAcknowledged snapshot)
    return ⟨0, some snapshot.phase⟩
  else
    return { tally with successfulSinceLog := successful }

def beat (jobId : RunId) (claimToken : String) (tally : Tally) : Beat (Tally ⊕ Unit) := do
  ask .tick
  if ← ask .stopped then
    return .inr ()
  else
    let snapshot ← ask .snapshot
    match ← ask (.heartbeat
        ⟨jobId, claimToken, snapshot.phase.protocolName, snapshot.cleanupRequired⟩) with
    | .ok .proceed => do
        let tally ← acknowledge tally snapshot
        return .inl tally
    | .ok .cancelRequested => do
        ask .requestCancellation
        return .inl tally
    | .ok .claimLost => do
        ask .markClaimLost
        return .inl tally
    -- the execution goes on under local recovery protection
    | .error _ => return .inl tally

/-- The task as it is spawned; it ends only when it finds itself stopped. -/
def start (jobId : RunId) (claimToken : String) : Beat Unit :=
  Program.iterate (beat jobId claimToken) {}

end HeartbeatTask

end PackageHarness
