/-
# PackageHarness.Api.Jobs — the worker status of the jobs endpoint.

The endpoint lists the stored jobs next to one summary of the worker, which is derived from the
configuration, the readiness cell and the drain state.
-/
import PackageHarness.Config

namespace PackageHarness

structure WorkerSummary where
  status : String
  message : String
  lifecycle : String
  safeToRestart : Bool
  deriving DecidableEq

def drainStateName : WorkerDrainState → String
  | .accepting => "accepting"
  | .draining => "draining"
  | .drained => "drained"

/-- The `worker` member of the response; `readiness` is the reason for which the worker is not
ready, if there is one. -/
def workerSummary (config : Config) (readiness : Option String) (drain : WorkerDrainState) :
    WorkerSummary :=
  match config.acceptanceError, readiness, drain with
  | some message, _, drain => ⟨"blocked", message, drainStateName drain, false⟩
  | none, some message, drain => ⟨"paused", message, drainStateName drain, false⟩
  | none, none, .draining =>
      ⟨"draining", "Finishing the current job before restart", "draining", false⟩
  | none, none, .drained =>
      ⟨"drained", "No job is active; the worker is safe to restart", "drained", true⟩
  | none, none, .accepting =>
      ⟨"ready", "Polling Tropibot for package jobs", "accepting", false⟩

theorem drained_of_safeToRestart {config : Config} {readiness : Option String}
    {drain : WorkerDrainState} (h : (workerSummary config readiness drain).safeToRestart = true) :
    drain = .drained := by
  unfold workerSummary at h
  split at h
  · cases h
  · cases h
  · cases h
  · rfl
  · cases h

theorem workerSummary_blocked_iff {config : Config} {readiness : Option String}
    {drain : WorkerDrainState} :
    (workerSummary config readiness drain).status = "blocked" ↔
      config.acceptanceError.isSome = true := by
  unfold workerSummary
  split <;> simp_all

end PackageHarness
