/-
# PackageHarness.Worker.Loop — the polling worker, from restart recovery to the claim loop.

`run` is the whole worker task. It recovers what an earlier process left behind, polls for jobs,
settles each one under the supervision of a heartbeat, and pauses when only an operator can make
another claim safe.
-/
import PackageHarness.Worker.Settle

namespace PackageHarness

open Interaction

namespace Worker

/-- Runs a settlement on its own copy of `record`, with heartbeats while it holds a claim token. -/
def supervised (record : RunRecord) (settle : Settle Unit) : Worker (Except String Unit) := do
  match record.worker.claimToken with
  | none =>
      let (outcome, _) ← settle record
      return outcome
  | some claimToken =>
      ask (.startHeartbeat record.id claimToken)
      let (outcome, _) ← settle record
      ask .stopHeartbeat
      return outcome

def processClaim (ext : Externals) (deployment : Deployment) (job : ClaimedJob) :
    Worker (Except String Unit) := do
  let time ← ask .now
  let record := RunRecord.claimed job.request job.claimToken time
  match ← ask (.create record) with
  | .error error =>
      let error := error.toText
      return .error s!"cannot persist claimed job before execution: {error}"
  | .ok _ =>
      ask .newProgress
      supervised record (settleClaim ext deployment)

/-- What `recover` finds among the local records. -/
inductive Unresolved
  | nothing
  | ambiguous
  | held (reason : String)
  | job (record : RunRecord)

def unresolvedJob (records : List RunRecord) : Unresolved :=
  match records.filter RunRecord.requiresWorkerAttention with
  | [] => .nothing
  | [record] =>
      match record.worker.pendingCompletionBody, record.worker.manualRecoveryReason with
      | none, some reason => .held reason
      | _, _ => .job record
  | _ :: _ :: _ => .ambiguous

def recover (ext : Externals) (deployment : Deployment) : Worker (Except String Unit) := do
  match ← ask .loadAll with
  | .error error =>
      let error := error.toText
      return .error s!"cannot load local worker records: {error}"
  | .ok records =>
      match unresolvedJob records with
      | .nothing => return .ok ()
      | .ambiguous =>
          return .error "multiple unresolved local jobs exist; operator recovery is required"
      -- no heartbeat while paused, so that the coordinator sees the job as lost
      | .held reason => return .error reason
      | .job record =>
          ask .newProgress
          onBehalf record.id (Runner.publish record.phase record.worker.cleanupRequired)
          supervised record (settleRecovered ext deployment.worker)

def hasManualHold (records : List RunRecord) : Bool :=
  records.any fun record =>
    record.requiresWorkerAttention && record.worker.manualRecoveryKind.isSome

/-- Waits for the recovery permit; answers whether the worker should go on. -/
def awaitRecovery : Worker Bool := do
  ask .recoveryWait
  ask .accepting

def waitForOperatorRecovery : Worker Bool := do
  if ← ask .accepting then
    match ← ask .loadAll with
    | .error _ => return false
    | .ok records => if hasManualHold records then awaitRecovery else return false
  else
    return false

/-- Becomes not ready, and goes on only after an operator resolved a local hold. -/
def standDown (ext : Externals) (reason : String) : Worker Bool := do
  ask (.setNotReady (redactAndBound ext reason 500))
  waitForOperatorRecovery

/-- One look at the drain state; the answer says whether the worker may claim, if that is known. -/
def drainRound : Worker (Unit ⊕ Bool) := do
  if ← ask .accepting then
    match ← ask .drainState with
    | .accepting => return .inr true
    -- between jobs the drain is complete; the worker sleeps until the state changes
    | .draining => do
        ask .markDrained
        ask (.drainChanged .draining)
        return .inl ()
    | .drained => do
        ask (.drainChanged .drained)
        return .inl ()
  else
    return .inr false

def waitUntilAccepting : Worker Bool := Program.iterate (fun _ => drainRound) ()

/-- How a lifetime of the polling loop ends. -/
inductive Ending
  | resume
  | stop

def Ending.ofResumed (resumed : Bool) : Ending := if resumed then .resume else .stop

/-- The reaction to a claim of the coordinator that this worker still owns an unknown job. -/
def awaitCoordinatorRecovery (ext : Externals) : Worker Ending := do
  ask (.setNotReady (redactAndBound ext
    "Tropibot reports an unresolved job but no recoverable local record exists" 500))
  if ← ask .accepting then
    return Ending.ofResumed (← awaitRecovery)
  else
    return .stop

def giveUp (ext : Externals) (reason : String) : Worker Ending := do
  ask (.setNotReady (redactAndBound ext reason 500))
  return .stop

/-- One claim request and its consequences. -/
def claimRound (ext : Externals) (deployment : Deployment) (attempt : Nat) :
    Worker (Nat ⊕ Ending) := do
  match ← ask .claim with
  | .ok .noWork => do
      ask (.idle deployment.worker.pollInterval)
      return .inl 0
  | .ok (.claimed job) =>
      -- every failure of a job ends the polling, even one that left no hold
      match ← processClaim ext deployment job with
      | .ok _ => return .inl 0
      | .error error => return .inr (Ending.ofResumed (← standDown ext error))
  | .error (.authentication _) =>
      return .inr (← giveUp ext "Tropibot rejected worker authentication; polling stopped")
  | .error .unresolvedJob => return .inr (← awaitCoordinatorRecovery ext)
  -- the backoff grows with the attempts and starts again after an answer
  | .error (.transient _) => do
      let attempt := nextAttempt attempt
      ask (.sleep (retryDelay deployment.worker.pollInterval attempt deployment.worker.workerId))
      return .inl attempt
  | .error error =>
      let error := error.toText
      return .inr (← giveUp ext s!"Tropibot claim failed: {error}")

/-- One round of `while self.accepting`. -/
def pollRound (ext : Externals) (deployment : Deployment) (attempt : Nat) :
    Worker (Nat ⊕ Ending) := do
  if ← ask .accepting then
    if ← waitUntilAccepting then
      claimRound ext deployment attempt
    else
      return .inr .stop
  else
    return .inr .stop

def poll (ext : Externals) (deployment : Deployment) : Worker Ending :=
  Program.iterate (pollRound ext deployment) 0

/-- One round of the outer loop: recovery, then polling. -/
def lifetime (ext : Externals) (deployment : Deployment) : Worker Ending := do
  match ← recover ext deployment with
  | .error error => return Ending.ofResumed (← standDown ext error)
  | .ok _ =>
      ask .clearReadiness
      if ← waitUntilAccepting then
        poll ext deployment
      else
        return .stop

def Ending.next : Ending → Unit ⊕ Unit
  | .resume => .inl ()
  | .stop => .inr ()

/-- The worker task. -/
def run (ext : Externals) (deployment : Deployment) : Worker Unit :=
  Program.iterate (fun _ => do return (← lifetime ext deployment).next) ()

end Worker

end PackageHarness
