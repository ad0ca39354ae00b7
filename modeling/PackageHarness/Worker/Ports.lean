/-
# PackageHarness.Worker.Ports — the requests of the polling worker and of the API tasks.

The worker adds to the runner's ports the coordinator's endpoints, the heartbeat task, the readiness
cell, the drain cell, the recovery permit and the `accepting` flag. A request made on behalf of a
run carries that run's id; everything the controller asks for enters through `runner`.
-/
import PackageHarness.Runner.Controller
import PackageHarness.Coordinator.Protocol

namespace PackageHarness

open Interaction

inductive WorkerDrainState
  | accepting
  | draining
  | drained
  deriving DecidableEq

inductive WorkerRequest
  | runner (run : RunId) (request : RunnerRequest)
  | create (record : RunRecord)
  | loadAll
  | claim
  | completeRaw (runId : RunId) (body : String)
  | newProgress
  | startHeartbeat (runId : RunId) (claimToken : String)
  | stopHeartbeat
  | claimLost
  | setNotReady (reason : String)
  | clearReadiness
  | now
  | sleep (duration : Duration)
  /-- Sleeps, but wakes early when the drain state is no longer `accepting`. -/
  | idle (duration : Duration)
  | accepting
  | drainState
  | markDrained
  /-- Waits until the drain state differs from the observed one or has been set again. -/
  | drainChanged (observed : WorkerDrainState)
  | recoveryWait
  | recoveryResume

@[reducible] def WorkerRequest.Answer : WorkerRequest → Type
  | runner _ request => request.Answer
  | create _ => Except StoreError Unit
  | loadAll => Except StoreError (List RunRecord)
  | claim => Except CoordinatorError ClaimOutcome
  | completeRaw _ _ => Except CoordinatorError CompletionDisposition
  | claimLost | accepting => Bool
  | now => Timestamp
  | drainState => WorkerDrainState
  | newProgress | startHeartbeat _ _ | stopHeartbeat | setNotReady _ | clearReadiness | sleep _
  | idle _ | markDrained | drainChanged _ | recoveryWait | recoveryResume => Unit

/-- Whether the worker holds a copy of a record, or is about to write one, while it waits for the
answer. -/
def WorkerRequest.holdsCopy : WorkerRequest → Bool
  | runner _ _ | create _ | completeRaw _ _ | newProgress | startHeartbeat _ _ | stopHeartbeat
  | claimLost | now | sleep _ | recoveryResume => true
  | loadAll | claim | setNotReady _ | clearReadiness | idle _ | accepting | drainState
  | markDrained | drainChanged _ | recoveryWait => false

abbrev Worker := Program WorkerRequest WorkerRequest.Answer

namespace Worker

def ask (request : WorkerRequest) : Worker request.Answer := Program.perform request

/-- Runs code of the runner for one run. -/
def onBehalf {α : Type} (run : RunId) (p : Runner α) : Worker α :=
  p.translate (.runner run) fun _ r => r

/-- Settling one job: code that owns the job's record and may give up with a message. -/
abbrev Settle (α : Type) := Routine WorkerRequest WorkerRequest.Answer RunRecord String α

end Worker

end PackageHarness
