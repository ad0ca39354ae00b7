/-
# PackageHarness.Runner.Ports — the ports through which the runner reaches the outside.

The controller depends on a package manager, a log analyzer, a run store, a clock and the worker's
progress cell. `RunnerRequest` has one request for each of their operations, so a runner function is
a `Runner` program over this signature and its effects can be read off its text. Saves carry the
place in the code that persists the record; `enter` marks a program point and does nothing.
-/
import PackageHarness.Interaction.Discipline
import PackageHarness.PackageManager

namespace PackageHarness

open Interaction

inductive StoreError
  | alreadyExists
  | io (message : String)
  | invalid (message : String)

def StoreError.toText : StoreError → String
  | alreadyExists => "run already exists"
  | io message => s!"I/O error while persisting run: {message}"
  | invalid message => s!"invalid persisted run: {message}"

/-- A safe boundary observed by the execution controller. -/
inductive RunControl
  | proceed
  | cancelRequested
  | claimLost
  deriving DecidableEq

/-- Which caller makes the worker reconcile a target outside the controller. -/
inductive RecoveryCause
  | executionFailed
  | claimLost
  | restart
  deriving DecidableEq

inductive RecoveryAction
  | continueAfterCleanup
  | confirmCleanup
  | retryCompletion
  | acceptCoordinatorResult
  deriving DecidableEq

/-- The places in the code that persist a run record. -/
inductive SaveSite
  | started
  | phase (phase : ExecutionPhase)
  | initialInventory
  | recoveryPlan
  | authorization
  | signatureBypass
  | baselineCapture
  | candidateCapture
  | analysis
  | cleanup
  | recoveryState (cause : RecoveryCause)
  | restartCleanup (cause : RecoveryCause)
  | workerError (code : WorkerErrorCode)
  | completionBody
  | acknowledgement
  | lostClaim (cause : RecoveryCause)
  | manualRecovery (kind : ManualRecoveryKind)
  | operator (action : RecoveryAction)
  deriving DecidableEq

/-- Program points that statements refer to. -/
inductive ProgramPoint
  | runAlgorithm
  | settleRecovered (record : RunRecord)
  | deliverUntilTerminal (record : RunRecord)
  | releaseReconciledClaim (record : RunRecord)

inductive RunnerRequest
  | pm (call : PmCall)
  | listPackagesWithin (remaining : Duration)
  | analyze (input : LogAnalysisInput)
  | now
  | instant
  | sleep (duration : Duration)
  | publish (phase : ExecutionPhase) (cleanupRequired : Bool)
  | control
  | get (runId : RunId)
  | save (site : SaveSite) (record : RunRecord)
  | enter (point : ProgramPoint)

@[reducible] def RunnerRequest.Answer : RunnerRequest → Type
  | pm call => Except PackageManagerError call.Reply
  | listPackagesWithin _ => Option (Except PackageManagerError (List PackageSummary))
  | analyze _ => Except AnalyzerError LogAnalysisResult
  | now => Timestamp
  | instant => Nat
  | control => RunControl
  | get _ => Except StoreError (Option RunRecord)
  | save _ _ => Except StoreError Unit
  | sleep _ | publish _ _ | enter _ => Unit

abbrev Runner := Program RunnerRequest RunnerRequest.Answer

namespace Runner

def ask (request : RunnerRequest) : Runner request.Answer := Program.perform request

def pm (call : PmCall) : Runner (Except PackageManagerError call.Reply) := ask (.pm call)

def listPackages (purpose : InventoryUse) :
    Runner (Except PackageManagerError (List PackageSummary)) :=
  pm (.listPackages purpose)

/-- `tokio::time::timeout(remaining, list_packages())`; `none` when the time is up first. -/
def listPackagesWithin (remaining : Duration) :
    Runner (Option (Except PackageManagerError (List PackageSummary))) :=
  ask (.listPackagesWithin remaining)

def removePackage (dnpName : DnpName) (deleteVolumes : Bool) :
    Runner (Except PackageManagerError Unit) :=
  pm (.removePackage dnpName deleteVolumes)

def installPackage (dnpName : DnpName) (version : Option PackageRef) :
    Runner (Except PackageManagerError Unit) :=
  pm (.installPackage dnpName version)

def now : Runner Timestamp := ask .now

def instant : Runner Nat := ask .instant

def sleep (duration : Duration) : Runner Unit := ask (.sleep duration)

def publish (phase : ExecutionPhase) (cleanupRequired : Bool) : Runner Unit :=
  ask (.publish phase cleanupRequired)

def control : Runner RunControl := ask .control

def get (runId : RunId) : Runner (Except StoreError (Option RunRecord)) := ask (.get runId)

def save (site : SaveSite) (record : RunRecord) : Runner (Except StoreError Unit) :=
  ask (.save site record)

def enter (point : ProgramPoint) : Runner Unit := ask (.enter point)

end Runner

end PackageHarness
