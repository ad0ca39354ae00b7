/-
# PackageHarness.Model.Evidence — jobs, package evidence, verdicts and results.

The passive data of the harness: what a claimed job asks for, what the package manager reports,
what the analyzers answer, and the result that is delivered. Field names and the declared order of
fields follow the source; closed enumerations are inductive types.
-/
import PackageHarness.Analysis.Redaction

namespace PackageHarness

/-! ## Jobs -/

structure RunId where
  value : String
  deriving DecidableEq

structure DnpName where
  value : String
  deriving DecidableEq

structure PackageRef where
  value : String
  deriving DecidableEq

structure RunSource where
  repository : String
  pullRequest : Nat
  headSha : String

structure PackageRequest where
  dnpName : DnpName
  candidateRef : PackageRef
  baselineRef : Option PackageRef

structure RunRequest where
  schemaVersion : Nat
  runId : RunId
  source : RunSource
  package : PackageRequest

structure ResolvedPackage where
  dnpName : DnpName
  candidateRef : PackageRef
  baselineRef : Option PackageRef

/-- `ExplicitPackageResolver`: the request already names the package. -/
def RunRequest.resolve (request : RunRequest) : ResolvedPackage where
  dnpName := request.package.dnpName
  candidateRef := request.package.candidateRef
  baselineRef := request.package.baselineRef

/-! ## Phases and reason codes -/

inductive ExecutionPhase
  | queued
  | preflight
  | baselinePreview
  | baselineInstall
  | baselineStabilization
  | baselineCapture
  | candidatePreview
  | candidateInstall
  | candidateStabilization
  | candidateCapture
  | analysis
  | cleanup
  | reporting
  | finished
  deriving DecidableEq

namespace ExecutionPhase

def protocolName : ExecutionPhase → String
  | queued => "queued"
  | preflight => "preflight"
  | baselinePreview => "baseline_preview"
  | baselineInstall => "baseline_install"
  | baselineStabilization => "baseline_stabilization"
  | baselineCapture => "baseline_capture"
  | candidatePreview => "candidate_preview"
  | candidateInstall => "candidate_install"
  | candidateStabilization => "candidate_stabilization"
  | candidateCapture => "candidate_capture"
  | analysis => "analysis"
  | cleanup => "cleanup"
  | reporting => "completion"
  | finished => "finished"

end ExecutionPhase

inductive ReasonCode
  | candidateContainersStable
  | candidateContainersUnstable
  | candidateInstallFailed
  | baselineContainersUnstable
  | baselineInstallFailed
  | baselineSignatureInvalid
  | baselineUnavailable
  | unsupportedRequiredSetup
  | corePackageRefused
  | harnessPackageRefused
  | cleanupFailed
  | mcpUnavailable
  | requiredMcpToolsMissing
  | persistenceFailed
  | interruptedOnRestart
  | cancellationRequested
  | claimLost
  | unexpectedError
  deriving DecidableEq

inductive Verdict
  | passed
  | failed
  | warning
  | inconclusive
  | infrastructureError
  deriving DecidableEq

/-! ## Package evidence -/

structure PackageSummary where
  dnpName : DnpName
  version : Option String
  isCore : Bool
  deriving DecidableEq

structure ContainerSnapshot where
  name : String
  serviceName : Option String
  state : Option String
  running : Bool
  image : Option String
  created : Option String

structure PackageDetails where
  dnpName : DnpName
  version : Option String
  /-- Exact reference the package was installed from; reported only for IPFS installs. -/
  origin : Option String
  containers : List ContainerSnapshot

theorem bind_eq_ok {ε α β : Type} {x : Except ε α} {f : α → Except ε β} {b : β} :
    x >>= f = .ok b ↔ ∃ a, x = .ok a ∧ f a = .ok b := by
  cases x with
  | ok a => simp [bind, Except.bind]
  | error e => simp [bind, Except.bind]

/-- The text with the whitespace at both ends removed. -/
def trim (s : List Char) : List Char :=
  ((s.dropWhile Redaction.isWhitespace).reverse.dropWhile Redaction.isWhitespace).reverse

/-- What follows `lead` in `s`, if `s` starts with it. -/
def afterLead (lead : String) (s : List Char) : Option (List Char) :=
  if lead.toList.isPrefixOf s then some (s.drop lead.length) else none

/-- Content identifier of an IPFS package reference or install origin: `/ipfs/<cid>`,
`ipfs://<cid>` or a bare CID. Registry references have none. -/
def ipfsCid (reference : String) : Option String :=
  let reference := trim reference.toList
  let (cid, prefixed) :=
    match (afterLead "/ipfs/" reference).or (afterLead "ipfs://" reference) with
    | some cid => (cid, true)
    | none => (reference, false)
  let cid := (cid.reverse.dropWhile (· == '/')).reverse
  let bytes := (cid.map Char.utf8Size).sum
  let bareCid := (bytes == 46 && (afterLead "Qm" cid).isSome) ||
    (bytes > 50 && (afterLead "baf" cid).isSome)
  let wellFormed := !cid.isEmpty && cid.all Char.isAlphanum
  if wellFormed && (prefixed || bareCid) then some (String.ofList cid) else none

/-- Whether an installed package's origin is the one a request resolved to. Registry installs have
no origin, so two registry references are equal here. -/
def sameInstallOrigin (expected installed : Option String) : Bool :=
  expected.bind ipfsCid == installed.bind ipfsCid

structure ContainerLog where
  container : Option String
  text : String

structure PackageLogs where
  entries : List ContainerLog

structure PreviewSummary where
  packageName : Option String
  version : Option String
  /-- Exact immutable reference resolved by the package manager. Never serialized. -/
  resolvedRef : Option String
  imageCount : Option Nat
  requiresUserInput : Bool
  summary : String

/-- The semantic version the preview resolves to: `version` falls back to the requested reference,
which is no version for IPFS or `*` references. -/
def PreviewSummary.semanticVersion (preview : PreviewSummary) : Option String :=
  preview.version.filter fun version => (version.toList.head?.map Char.isDigit).getD false

structure StabilizationSample where
  observedAt : String
  containerNames : List String
  allRunning : Bool
  nonRunningStates : List String
  error : Option String

structure StabilizationResult where
  passed : Bool
  stableSamples : Nat
  durationMs : Nat
  samples : List StabilizationSample
  lastNonRunningStates : List String

inductive StepStatus
  | pending
  | passed
  | failed
  deriving DecidableEq

structure CaptureEvidence where
  installStatus : StepStatus
  installDurationMs : Nat
  preview : Option PreviewSummary
  details : Option PackageDetails
  stabilization : StabilizationResult
  logs : Option PackageLogs
  logError : Option String
  startedAt : String
  finishedAt : String

structure ComparisonEvidence where
  baselineHardCheck : Bool
  candidateHardCheck : Bool
  baselineContainers : List String
  candidateContainers : List String
  containersAdded : List String
  containersRemoved : List String
  baselineVersion : Option String
  candidateVersion : Option String
  baselineStabilizationMs : Nat
  candidateStabilizationMs : Nat
  baselineLastNonRunningStates : List String
  candidateLastNonRunningStates : List String
  baselineLogsCollected : Bool
  candidateLogsCollected : Bool
  deterministicRegressions : List String

/-! ## Log analysis -/

inductive AnalyzerStatus
  | clean
  | suspicious
  | critical
  | inconclusive
  deriving DecidableEq

inductive AnalyzerKind
  | heuristic
  | nexus
  | composite
  deriving DecidableEq

inductive FindingSeverity
  | warning
  | critical
  deriving DecidableEq

structure AnalysisSide where
  status : AnalyzerStatus
  summary : String

structure LogFinding where
  severity : FindingSeverity
  container : Option String
  evidence : String
  reason : String

structure AnalyzerComponent where
  analyzer : AnalyzerKind
  status : AnalyzerStatus
  summary : String
  newFindings : List LogFinding
  error : Option String

structure LogAnalysisResult where
  analyzer : AnalyzerKind
  status : AnalyzerStatus
  summary : String
  baseline : AnalysisSide
  candidate : AnalysisSide
  newFindings : List LogFinding
  analyzerErrors : List String
  components : List AnalyzerComponent

structure LogAnalysisInput where
  baseline : List (Option String × String)
  candidate : List (Option String × String)

inductive AnalyzerError
  | configuration (message : String)
  | timeout
  | transport (message : String)
  | invalidResponse (message : String)

def AnalyzerError.toText : AnalyzerError → String
  | configuration message => s!"invalid analyzer configuration: {message}"
  | timeout => "analyzer timed out"
  | transport message => s!"analyzer transport failed: {message}"
  | invalidResponse message => s!"analyzer returned invalid data: {message}"

/-! ## Results -/

inductive ExecutionStatus
  | queued
  | running
  | completed
  | interrupted
  deriving DecidableEq

inductive CleanupStatus
  | pending
  | passed
  | failed
  | timedOut
  | skipped
  deriving DecidableEq

structure CleanupResult where
  status : CleanupStatus
  leftoverPackages : List String
  error : Option String

structure RunError where
  code : ReasonCode
  message : String
  phase : ExecutionPhase

structure ResultPackage where
  dnpName : String
  baselineRequestedRef : Option String
  baselineResolvedVersion : Option String
  candidateRef : String
  candidateReportedVersion : Option String

structure ResultExecution where
  status : ExecutionStatus
  startedAt : String
  finishedAt : String
  durationMs : Nat

structure InstallResult where
  status : StepStatus
  durationMs : Nat

structure HardCheckResult where
  passed : Bool
  reasonCodes : List ReasonCode
  containerCount : Nat
  stableSamples : Nat

structure LogCollectionResult where
  status : StepStatus
  containerCount : Nat

structure ResultSide where
  install : InstallResult
  hardCheck : HardCheckResult
  containers : List ContainerSnapshot
  logCollection : LogCollectionResult

/-- The normal outcome of a run. `ResultSource` has the fields of `RunSource` and is modelled by
it. -/
structure HarnessResult where
  schemaVersion : Nat
  runId : String
  source : RunSource
  package : ResultPackage
  execution : ResultExecution
  verdict : Verdict
  reasonCode : ReasonCode
  summary : String
  baseline : ResultSide
  candidate : ResultSide
  comparison : ComparisonEvidence
  logAnalysis : LogAnalysisResult
  cleanup : CleanupResult
  errors : List RunError

end PackageHarness
