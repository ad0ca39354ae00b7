/-
# PackageHarness.Runner.Controller — one run, from the queued record to the persisted result.

`execute` is the controller's entry point; `runAlgorithm` is the test itself, split at the source's
phases. The in-memory record and the flag `cleanupAuthorized` are the local state of the routines,
so what a failure leaves behind in memory is still there when the cleanup tail runs.
-/
import PackageHarness.Runner.Cleanup
import PackageHarness.Runner.Comparison

namespace PackageHarness

open Interaction Redaction

/-- Runtime policy for one package test execution. -/
structure RunnerConfig where
  harnessDnpName : String
  stabilization : StabilizationConfig
  logTail : Nat
  cleanupTimeout : Duration

inductive ControllerError
  | notFound
  | persistence (message : String)

def ControllerError.toText : ControllerError → String
  | notFound => "run does not exist"
  | persistence message => s!"persistence failed: {message}"

/-- An early end of the algorithm: the verdict it leads to, unless cleanup changes it. -/
structure Failure where
  verdict : Verdict
  reason : ReasonCode
  summary : String

/-- What the controller holds in memory while it drives a run. -/
structure Execution where
  record : RunRecord
  cleanupAuthorized : Bool := false

namespace Runner

/-- Controller code that fails with a controller error. -/
abbrev Driver (α : Type) := Routine RunnerRequest RunnerRequest.Answer Execution ControllerError α

/-- Controller code that fails with a verdict. -/
abbrev Algorithm (α : Type) := Routine RunnerRequest RunnerRequest.Answer Execution Failure α

def storeError (error : StoreError) : ControllerError := .persistence error.toText

def persistenceFailure (error : ControllerError) : Failure :=
  ⟨.infrastructureError, .persistenceFailed, truncateUtf8 error.toText 500⟩

def packageFailure (operationReason : ReasonCode) (error : PackageManagerError) : Failure :=
  let reason := match error with
    | .transport _ | .timeout _ => .mcpUnavailable
    | .configuration _ | .invalidResponse _ _ => .unexpectedError
    | .tool _ _ | .requiredSetup | .notFound => operationReason
  ⟨.infrastructureError, reason, truncateUtf8 error.toText 500⟩

def controlFailure : RunControl → Except Failure Unit
  | .proceed => .ok ()
  | .cancelRequested =>
      .error ⟨.inconclusive, .cancellationRequested,
        "Tropibot requested cancellation at a safe phase boundary"⟩
  | .claimLost =>
      .error ⟨.infrastructureError, .claimLost,
        "Tropibot no longer recognizes this worker claim"⟩

/-! ## Record updates -/

def Execution.modify (f : RunRecord → RunRecord) (s : Execution) : Execution :=
  { s with record := f s.record }

def setEvidence (f : RunEvidence → RunEvidence) (record : RunRecord) : RunRecord :=
  { record with evidence := f record.evidence }

def pushError (error : RunError) (record : RunRecord) : RunRecord :=
  { record with errors := record.errors ++ [error] }

def planRecovery (plan : TargetRecoveryPlan) (record : RunRecord) : RunRecord :=
  { record with worker := { record.worker with targetRecovery := plan } }

def requireCleanup (record : RunRecord) : RunRecord :=
  { record with worker := { record.worker with cleanupRequired := true } }

def setCleanup (cleanup : CleanupResult) (finalPackages : List PackageSummary)
    (record : RunRecord) : RunRecord :=
  { record with
    cleanup := cleanup
    evidence := { record.evidence with finalPackages := finalPackages } }

def skipCleanup (record : RunRecord) : RunRecord :=
  { record with cleanup := ⟨.skipped, [], none⟩ }

/-! ## Persistence and control -/

def saveRecord (site : SaveSite) : Driver Unit := do
  let s ← .read
  match ← .run (Runner.save site s.record) with
  | .ok _ => pure ()
  | .error error => .throw (storeError error)

def phase (next : ExecutionPhase) : Driver Unit := do
  let time ← .run now
  .update (Execution.modify fun record => record.transition next time)
  saveRecord (.phase next)
  let s ← .read
  .run (publish next s.record.worker.cleanupRequired)

def checkControl : Algorithm Unit := do
  let signal ← .run control
  .ofExcept (controlFailure signal)

def phaseFailure (next : ExecutionPhase) : Algorithm Unit := do
  (phase next).mapError persistenceFailure
  checkControl

def saveFailure (site : SaveSite) : Algorithm Unit := (saveRecord site).mapError persistenceFailure

/-- A package-manager call whose failure ends the algorithm. -/
def callOrFail (call : PmCall) (failure : PackageManagerError → Failure) :
    Algorithm call.Reply := do
  match ← .run (pm call) with
  | .ok reply => pure reply
  | .error error => .throw (failure error)

def failWhen (condition : Bool) (failure : Failure) : Algorithm Unit :=
  if condition then .throw failure else pure ()

def authorizeCleanup : Algorithm Unit := do
  let s ← .read
  if s.cleanupAuthorized then
    pure ()
  else
    -- persisted before the first destructive call, so that a restart never has to guess
    .update fun s => { Execution.modify requireCleanup s with cleanupAuthorized := true }
    saveFailure .authorization
    let s ← .read
    .run (publish s.record.phase s.record.worker.cleanupRequired)

/-! ## Preflight -/

def preflight (config : RunnerConfig) (package : ResolvedPackage) :
    Algorithm (List PackageSummary) := do
  phaseFailure .preflight
  let tools ← callOrFail .verifyTools (packageFailure .mcpUnavailable)
  failWhen (!tools.ready) ⟨.infrastructureError, .requiredMcpToolsMissing, tools.message⟩
  failWhen (package.dnpName.value == config.harnessDnpName)
    ⟨.infrastructureError, .harnessPackageRefused, "refused to test the harness package itself"⟩
  let packages ← callOrFail (.listPackages .preflight) (packageFailure .mcpUnavailable)
  failWhen (packages.any fun installed => installed.dnpName == package.dnpName && installed.isCore)
    ⟨.infrastructureError, .corePackageRefused, "refused to test a core Dappnode package"⟩
  return packages

def findInstalled (packages : List PackageSummary) (dnpName : DnpName) : Option PackageSummary :=
  packages.find? fun installed => installed.dnpName == dnpName

/-- The recovery plan that an inventory calls for. -/
def recoveryPlanFor (packages : List PackageSummary) (dnpName : DnpName) : TargetRecoveryPlan :=
  if (findInstalled packages dnpName).isSome then .restoreLatest else .remove

def recordInventory (package : ResolvedPackage) (packages : List PackageSummary) :
    Algorithm Unit := do
  .update (Execution.modify (setEvidence fun evidence =>
    { evidence with initialPackages := packages }))
  saveFailure .initialInventory
  .update (Execution.modify (planRecovery (recoveryPlanFor packages package.dnpName)))
  saveFailure .recoveryPlan

/-! ## Baseline -/

/-- Whether the installed target has the version that the baseline resolves to. -/
def installedVersionMatches (package : ResolvedPackage) (installed : Option PackageSummary)
    (expectedVersion : Option String) : Bool :=
  match installed.bind (·.version) with
  | none => false
  | some installedVersion =>
      match expectedVersion with
      | some resolvedVersion => resolvedVersion == installedVersion
      | none => package.baselineRef.any fun requested => requested.value == installedVersion

/-- Unreadable details count as no match, which reinstalls the baseline. -/
def installedOriginMatches (dnpName : DnpName) (expected : Option String) : Algorithm Bool := do
  match ← .run (pm (.getPackageDetails dnpName)) with
  | .ok details => return sameInstallOrigin expected details.origin
  | .error _ => return false

def reuseInstalledBaseline (package : ResolvedPackage) (installed : Option PackageSummary)
    (preview : PreviewSummary) : Algorithm Bool :=
  if installedVersionMatches package installed preview.version then
    installedOriginMatches package.dnpName preview.resolvedRef
  else
    return false

def previewBaseline (package : ResolvedPackage) : Algorithm PreviewSummary := do
  phaseFailure .baselinePreview
  callOrFail (.previewInstall package.dnpName package.baselineRef)
    (packageFailure .baselineUnavailable)

def baselineInstallFailure : PackageManagerError → Failure
  | .requiredSetup =>
      ⟨.inconclusive, .unsupportedRequiredSetup,
        "baseline requires setup values; only default/empty settings are supported"⟩
  | error => ⟨.infrastructureError, .baselineInstallFailed, truncateUtf8 error.toText 500⟩

def removeInstalled (package : ResolvedPackage) : Algorithm Unit := do
  -- volumes stay: the target was there before the run
  match ← .run (removePackage package.dnpName false) with
  | .ok _ => pure ()
  | .error error =>
      failWhen (!error.isNotFound)
        ⟨.infrastructureError, .baselineInstallFailed, truncateUtf8 error.toText 500⟩

/-- The second attempt after a signature rejection, and the note that it leaves in the record. -/
def installBypassingSignature (package : ResolvedPackage) (rejection : PackageManagerError) :
    Algorithm Unit := do
  match ← .run (pm (.installPackageBypassingSignature package.dnpName package.baselineRef)) with
  | .ok _ =>
      let text := rejection.toText
      .update (Execution.modify (pushError ⟨.baselineSignatureInvalid,
        truncateUtf8 s!"baseline signature validation failed and was bypassed: {text}" 500,
        .baselineInstall⟩))
      saveFailure .signatureBypass
  | .error error => .throw (baselineInstallFailure error)

def installBaseline (package : ResolvedPackage) : Algorithm Unit := do
  match ← .run (installPackage package.dnpName package.baselineRef) with
  | .ok _ => pure ()
  | .error error =>
      if error.isSignatureRejection then
        installBypassingSignature package error
      else
        .throw (baselineInstallFailure error)

def prepareBaseline (package : ResolvedPackage) (installed : Option PackageSummary)
    (reuse : Bool) : Algorithm Unit :=
  if reuse then
    pure ()
  else do
    authorizeCleanup
    if installed.isSome then removeInstalled package else pure ()
    installBaseline package

/-! ## Capture -/

def captureLogs (ext : Externals) (config : RunnerConfig) (dnpName : DnpName) :
    Runner (Option PackageLogs × Option String) := do
  match ← pm (.getPackageLogs dnpName config.logTail) with
  | .ok logs =>
      return (some ⟨logs.entries.map fun entry =>
        { entry with text := redactAndBound ext entry.text (64 * 1024) }⟩, none)
  | .error error => return (none, some (truncateUtf8 error.toText 300))

def capture (ext : Externals) (config : RunnerConfig) (dnpName : DnpName) (startedAt : Timestamp)
    (preview : PreviewSummary) (installDurationMs : Nat) (stabilization : StabilizationResult) :
    Runner (Except PackageManagerError CaptureEvidence) := do
  match ← pm (.getPackageDetails dnpName) with
  | .error error => return .error error
  | .ok details =>
      let (logs, logError) ← captureLogs ext config dnpName
      let finishedAt ← now
      return .ok
        { installStatus := .passed
          installDurationMs := installDurationMs
          preview := some preview
          details := some details
          stabilization := stabilization
          logs := logs
          logError := logError
          startedAt := ext.toRfc3339 startedAt
          finishedAt := ext.toRfc3339 finishedAt }

/-- Fails when a mutation was reported as applied, but the package reports another version or
install origin than the preview resolved. -/
def appliedVersion (capture : CaptureEvidence) (side : String) (reason : ReasonCode) :
    Except Failure Unit :=
  match capture.preview.bind PreviewSummary.semanticVersion, reportedVersion (some capture) with
  | some expected, some reported =>
      if expected ≠ reported then
        .error ⟨.infrastructureError, reason,
          s!"Dappmanager reported the {side} as installed, but the package reports " ++
            s!"version {reported} instead of {expected}"⟩
      else
        appliedOrigin
  | _, _ => appliedOrigin
where
  appliedOrigin : Except Failure Unit :=
    match capture.details with
    | none => .ok ()
    | some details =>
        let expectedOrigin := capture.preview.bind (·.resolvedRef)
        if sameInstallOrigin expectedOrigin details.origin then
          .ok ()
        else
          let reported := details.origin.getD "the registry"
          let expected := expectedOrigin.getD "the registry"
          .error ⟨.infrastructureError, reason,
            s!"Dappmanager reported the {side} as installed, but the package was installed " ++
              s!"from {reported} instead of {expected}"⟩

/-- The side-specific parts of the shared stabilize-and-capture path. -/
structure Side where
  name : String
  stabilizationPhase : ExecutionPhase
  capturePhase : ExecutionPhase
  captureSite : SaveSite
  captureReason : ReasonCode
  appliedReason : ReasonCode
  store : CaptureEvidence → RunEvidence → RunEvidence

def baselineSide : Side where
  name := "baseline"
  stabilizationPhase := .baselineStabilization
  capturePhase := .baselineCapture
  captureSite := .baselineCapture
  captureReason := .baselineUnavailable
  appliedReason := .baselineInstallFailed
  store := fun capture evidence => { evidence with baseline := some capture }

def candidateSide : Side where
  name := "candidate"
  stabilizationPhase := .candidateStabilization
  capturePhase := .candidateCapture
  captureSite := .candidateCapture
  captureReason := .candidateInstallFailed
  appliedReason := .candidateInstallFailed
  store := fun capture evidence => { evidence with candidate := some capture }

/-- Stabilizes and captures one side after its installation step. -/
def stabilizeAndCapture (ext : Externals) (config : RunnerConfig) (package : ResolvedPackage)
    (side : Side) (startedAt : Timestamp) (preview : PreviewSummary) (installMs : Nat) :
    Algorithm Unit := do
  phaseFailure side.stabilizationPhase
  let stabilization ← .run (stabilize ext package.dnpName config.stabilization)
  checkControl
  phaseFailure side.capturePhase
  match ← .run (capture ext config package.dnpName startedAt preview installMs stabilization) with
  | .error error => .throw (packageFailure side.captureReason error)
  | .ok evidence =>
      -- what was captured is kept even if it turns out to be the wrong version
      .update (Execution.modify (setEvidence (side.store evidence)))
      saveFailure side.captureSite
      .ofExcept (appliedVersion evidence side.name side.appliedReason)

/-! ## Candidate and analysis -/

def previewCandidate (package : ResolvedPackage) : Algorithm PreviewSummary := do
  phaseFailure .candidatePreview
  callOrFail (.previewInstall package.dnpName (some package.candidateRef))
    (packageFailure .candidateInstallFailed)

def candidateInstallFailure (error : PackageManagerError) : Failure :=
  ⟨if error.isTransientMutationFailure then .infrastructureError else .failed,
    .candidateInstallFailed, truncateUtf8 error.toText 500⟩

def logsForAnalysis (ext : Externals) (capture : CaptureEvidence) : List (Option String × String) :=
  match capture.logs with
  | none => []
  | some logs =>
      (logs.entries.take 20).map fun entry =>
        (entry.container, redactAndBound ext entry.text (16 * 1024))

def analysisInput (ext : Externals) (baseline candidate : CaptureEvidence) : LogAnalysisInput where
  baseline := logsForAnalysis ext baseline
  candidate := logsForAnalysis ext candidate

def presentEvidence (side : String) (capture : Option CaptureEvidence) :
    Algorithm CaptureEvidence :=
  match capture with
  | some capture => pure capture
  | none =>
      .throw ⟨.infrastructureError, .unexpectedError, s!"{side} evidence was unexpectedly absent"⟩

def analyzeEvidence (ext : Externals) : Algorithm Unit := do
  phaseFailure .analysis
  let s ← .read
  let baseline ← presentEvidence "baseline" s.record.evidence.baseline
  let candidate ← presentEvidence "candidate" s.record.evidence.candidate
  .update (Execution.modify (setEvidence fun evidence =>
    { evidence with comparison := some (compare baseline candidate) }))
  let answer ← .run (ask (.analyze (analysisInput ext baseline candidate)))
  let analysis := match answer with
    | .ok analysis => analysis
    | .error error => analysisFailure error.toText
  .update (Execution.modify (setEvidence fun evidence =>
    { evidence with logAnalysis := some analysis }))
  saveFailure .analysis

/-! ## The algorithm -/

def runBaseline (ext : Externals) (config : RunnerConfig) (package : ResolvedPackage)
    (packages : List PackageSummary) : Algorithm Unit := do
  let installed := findInstalled packages package.dnpName
  let preview ← previewBaseline package
  let reuse ← reuseInstalledBaseline package installed preview
  phaseFailure .baselineInstall
  let startedAt ← .run now
  prepareBaseline package installed reuse
  let finishedAt ← .run now
  stabilizeAndCapture ext config package baselineSide startedAt preview
    (elapsedMs startedAt finishedAt)

def runCandidate (ext : Externals) (config : RunnerConfig) (package : ResolvedPackage) :
    Algorithm Unit := do
  let preview ← previewCandidate package
  phaseFailure .candidateInstall
  authorizeCleanup
  let startedAt ← .run now
  callOrFail (.updatePackage package.dnpName package.candidateRef) candidateInstallFailure
  let finishedAt ← .run now
  stabilizeAndCapture ext config package candidateSide startedAt preview
    (elapsedMs startedAt finishedAt)

def runAlgorithm (ext : Externals) (config : RunnerConfig) : Algorithm Unit := do
  .run (enter .runAlgorithm)
  let s ← .read
  let package := s.record.request.resolve
  let packages ← preflight config package
  recordInventory package packages
  runBaseline ext config package packages
  runCandidate ext config package
  analyzeEvidence ext

/-! ## The whole run -/

def noteFailure (result : Except Failure Unit) : Driver (Option Failure) := do
  match result with
  | .ok _ => return none
  | .error failure =>
      .update (Execution.modify fun record =>
        pushError ⟨failure.reason, truncateUtf8 failure.summary 500, record.phase⟩ record)
      return some failure

/-- The cleanup tail: reconciles the target if a mutation was authorized. -/
def cleanUp (config : RunnerConfig) : Driver Unit := do
  let s ← .read
  if s.cleanupAuthorized then
    -- this save makes the requirement durable even if the authorizing save did not
    phase .cleanup
    let s ← .read
    let (cleanup, finalPackages) ← .run (reconcileTarget s.record.request.resolve.dnpName
      s.record.worker.targetRecovery s.record.evidence.initialPackages config.cleanupTimeout)
    .update (Execution.modify (setCleanup cleanup finalPackages))
    saveRecord .cleanup
  else
    .update (Execution.modify skipCleanup)

def cleanupFailed (record : RunRecord) : Bool :=
  match record.cleanup.status with
  | .failed | .timedOut => true
  | .pending | .passed | .skipped => false

/-- The verdict before the signature overlay. -/
def cleanupOverlay (record : RunRecord) (decided : Verdict × ReasonCode × String) :
    Verdict × ReasonCode × String :=
  if cleanupFailed record && decided.1 == .passed then
    let summary := decided.2.2
    (.warning, .cleanupFailed, s!"{summary}; target cleanup failed")
  else decided

def noteCleanupFailure (record : RunRecord) : RunRecord :=
  if cleanupFailed record then
    pushError ⟨.cleanupFailed, record.cleanup.error.getD "target cleanup failed", .cleanup⟩ record
  else record

/-- The overlay for a baseline whose signature check was bypassed. -/
def signatureOverlay (record : RunRecord) (decided : Verdict × ReasonCode × String) :
    Verdict × ReasonCode × String :=
  if record.errors.any fun error => error.code == .baselineSignatureInvalid then
    let summary := decided.2.2
    match decided.1 with
    | .passed =>
        (.warning, .baselineSignatureInvalid,
          s!"{summary}; baseline signature validation was bypassed")
    | .warning =>
        (.warning, decided.2.1, s!"{summary}; baseline signature validation was bypassed")
    | .failed | .inconclusive | .infrastructureError => decided
  else decided

/-- The completed record with its result, as it is about to enter the phase `finished`. -/
def conclude (ext : Externals) (failure : Option Failure) (finished : Timestamp)
    (record : RunRecord) : RunRecord :=
  let comparison := record.evidence.comparison.getD (comparisonFromPartial record.evidence)
  let analysis := record.evidence.logAnalysis.getD inconclusiveAnalysis
  let decided := match failure with
    | some failure => (failure.verdict, failure.reason, failure.summary)
    | none => deterministicVerdict comparison analysis
  let decided := cleanupOverlay record decided
  let record := noteCleanupFailure record
  -- the overlay reads the errors that the cleanup has been added to
  let (verdict, reason, summary) := signatureOverlay record decided
  let record := { record with status := .completed, finishedAt := some finished }
  { record with
    result := some (buildResult ext record comparison analysis verdict reason
      (truncateUtf8 summary 500) finished) }

/-- Everything between the queued record and the end of the run. -/
def drive (ext : Externals) (config : RunnerConfig) : Driver Unit := do
  let started ← .run now
  .update (Execution.modify fun record => record.start started)
  saveRecord .started
  let s ← .read
  .run (publish s.record.phase s.record.worker.cleanupRequired)
  let result ← (runAlgorithm ext config).attempt
  let failure ← noteFailure result
  cleanUp config
  let finished ← .run now
  .update (Execution.modify (conclude ext failure finished))
  phase .finished

/-- Executes a queued run exactly once. -/
def execute (ext : Externals) (config : RunnerConfig) (runId : RunId) :
    Runner (Except ControllerError Unit) := do
  match ← get runId with
  | .error error => return .error (storeError error)
  | .ok none => return .error .notFound
  | .ok (some record) =>
      -- a run that was started before is left to restart recovery
      if record.status ≠ .queued then
        return .ok ()
      else
        let (outcome, _) ← drive ext config { record := record }
        return outcome

end Runner

end PackageHarness
