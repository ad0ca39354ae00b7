/-
# PackageHarness.System.Defect — the answers and program points at which the code goes wrong.

Each defect is a condition on one step: which request the worker makes, how it is answered, and in
one case whether a failed save took effect. Statements about runs without a defect quantify over the
runs in which no step shows it.
-/
import PackageHarness.System.Ledger

namespace PackageHarness

inductive Defect
  /-- The reconciliation after a lost claim ends, and is persisted, without having passed. -/
  | releasesUncleanClaim
  /-- A restart finds a finished run whose cleanup failed and whose completion was not built. -/
  | redeliversUncleanResult
  /-- Persisting the recovery state fails for a run that never needed cleanup. -/
  | holdsUntouchedTarget
  /-- The controller's last save reports an error although the record became durable. -/
  | doublesOutcome
  /-- A restart finds a worker error of an earlier process that has no completion body yet. -/
  | replacesOutcome
  deriving DecidableEq

def Defect.ShownBy : Defect → (request : WorkerRequest) → request.Answer → Ledger → Prop
  | .releasesUncleanClaim, .runner _ (.save (.restartCleanup .claimLost) record), .ok _, _ =>
      record.cleanup.status ≠ .passed
  | .redeliversUncleanResult, .runner _ (.enter (.settleRecovered record)), _, _ =>
      record.worker.pendingCompletionBody = none ∧
        (record.status = .completed ∧ record.result.isSome) ∧ Runner.cleanupFailed record = true
  | .holdsUntouchedTarget, .runner _ (.save (.recoveryState _) record), .error _, _ =>
      record.worker.cleanupRequired = false
  | .doublesOutcome, .runner _ (.save (.phase .finished) record), .error _, after =>
      after.store record.id = some record.persisted
  | .replacesOutcome, .runner _ (.enter (.settleRecovered record)), _, _ =>
      record.deliverable = false ∧ ∃ error, record.worker.workerError = some error ∧
        error.code ≠ .interrupted
  | _, _, _, _ => False

end PackageHarness
