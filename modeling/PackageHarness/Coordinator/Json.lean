/-
# PackageHarness.Coordinator.Json — the JSON values of a completion.

The worker stores the serialized completion and sends it byte for byte. This module spells out what
the derived serializers produce for it: object members in declaration order, camel-case names,
snake-case enumeration values, `null` for an absent option, and the members that are skipped when
they are empty.
-/
import PackageHarness.Model.Run
import PackageHarness.Text.Json

namespace PackageHarness

open Json

def ReasonCode.toJson : ReasonCode → Json
  | candidateContainersStable => string "candidate_containers_stable"
  | candidateContainersUnstable => string "candidate_containers_unstable"
  | candidateInstallFailed => string "candidate_install_failed"
  | baselineContainersUnstable => string "baseline_containers_unstable"
  | baselineInstallFailed => string "baseline_install_failed"
  | baselineSignatureInvalid => string "baseline_signature_invalid"
  | baselineUnavailable => string "baseline_unavailable"
  | unsupportedRequiredSetup => string "unsupported_required_setup"
  | corePackageRefused => string "core_package_refused"
  | harnessPackageRefused => string "harness_package_refused"
  | cleanupFailed => string "cleanup_failed"
  | mcpUnavailable => string "mcp_unavailable"
  | requiredMcpToolsMissing => string "required_mcp_tools_missing"
  | persistenceFailed => string "persistence_failed"
  | interruptedOnRestart => string "interrupted_on_restart"
  | cancellationRequested => string "cancellation_requested"
  | claimLost => string "claim_lost"
  | unexpectedError => string "unexpected_error"

def Verdict.toJson : Verdict → Json
  | passed => string "passed"
  | failed => string "failed"
  | warning => string "warning"
  | inconclusive => string "inconclusive"
  | infrastructureError => string "infrastructure_error"

def AnalyzerStatus.toJson : AnalyzerStatus → Json
  | clean => string "clean"
  | suspicious => string "suspicious"
  | critical => string "critical"
  | inconclusive => string "inconclusive"

def AnalyzerKind.toJson : AnalyzerKind → Json
  | heuristic => string "heuristic"
  | nexus => string "nexus"
  | composite => string "composite"

def FindingSeverity.toJson : FindingSeverity → Json
  | warning => string "warning"
  | critical => string "critical"

def StepStatus.toJson : StepStatus → Json
  | pending => string "pending"
  | passed => string "passed"
  | failed => string "failed"

def ExecutionStatus.toJson : ExecutionStatus → Json
  | queued => string "queued"
  | running => string "running"
  | completed => string "completed"
  | interrupted => string "interrupted"

def CleanupStatus.toJson : CleanupStatus → Json
  | pending => string "pending"
  | passed => string "passed"
  | failed => string "failed"
  | timedOut => string "timed_out"
  | skipped => string "skipped"

def WorkerErrorCode.toJson : WorkerErrorCode → Json
  | interrupted => string "interrupted"
  | unsupportedJob => string "unsupported_job"
  | cleanupFailed => string "cleanup_failed"
  | localPersistenceFailed => string "local_persistence_failed"
  | unexpectedError => string "unexpected_error"

/-- Phases are stored under their own names; `protocolName` is the heartbeat's spelling. -/
def ExecutionPhase.toJson : ExecutionPhase → Json
  | reporting => string "reporting"
  | phase => string phase.protocolName

def ContainerSnapshot.toJson (container : ContainerSnapshot) : Json := object
  [("name", string container.name),
   ("serviceName", option string container.serviceName),
   ("state", option string container.state),
   ("running", bool container.running),
   ("image", option string container.image),
   ("created", option string container.created)]

def AnalysisSide.toJson (side : AnalysisSide) : Json := object
  [("status", side.status.toJson),
   ("summary", string side.summary)]

def LogFinding.toJson (finding : LogFinding) : Json := object
  [("severity", finding.severity.toJson),
   ("container", option string finding.container),
   ("evidence", string finding.evidence),
   ("reason", string finding.reason)]

def AnalyzerComponent.toJson (component : AnalyzerComponent) : Json := object
  [("analyzer", component.analyzer.toJson),
   ("status", component.status.toJson),
   ("summary", string component.summary),
   ("newFindings", array (component.newFindings.map LogFinding.toJson)),
   ("error", option string component.error)]

def LogAnalysisResult.toJson (analysis : LogAnalysisResult) : Json := object <|
  [("analyzer", analysis.analyzer.toJson),
   ("status", analysis.status.toJson),
   ("summary", string analysis.summary),
   ("baseline", analysis.baseline.toJson),
   ("candidate", analysis.candidate.toJson),
   ("newFindings", array (analysis.newFindings.map LogFinding.toJson))] ++
  unlessEmpty "analyzerErrors" string analysis.analyzerErrors ++
  unlessEmpty "components" AnalyzerComponent.toJson analysis.components

def ComparisonEvidence.toJson (comparison : ComparisonEvidence) : Json := object
  [("baselineHardCheck", bool comparison.baselineHardCheck),
   ("candidateHardCheck", bool comparison.candidateHardCheck),
   ("baselineContainers", strings comparison.baselineContainers),
   ("candidateContainers", strings comparison.candidateContainers),
   ("containersAdded", strings comparison.containersAdded),
   ("containersRemoved", strings comparison.containersRemoved),
   ("baselineVersion", option string comparison.baselineVersion),
   ("candidateVersion", option string comparison.candidateVersion),
   ("baselineStabilizationMs", number comparison.baselineStabilizationMs),
   ("candidateStabilizationMs", number comparison.candidateStabilizationMs),
   ("baselineLastNonRunningStates", strings comparison.baselineLastNonRunningStates),
   ("candidateLastNonRunningStates", strings comparison.candidateLastNonRunningStates),
   ("baselineLogsCollected", bool comparison.baselineLogsCollected),
   ("candidateLogsCollected", bool comparison.candidateLogsCollected),
   ("deterministicRegressions", strings comparison.deterministicRegressions)]

def ResultSide.toJson (side : ResultSide) : Json := object
  [("install", object
     [("status", side.install.status.toJson),
      ("durationMs", number side.install.durationMs)]),
   ("hardCheck", object
     [("passed", bool side.hardCheck.passed),
      ("reasonCodes", array (side.hardCheck.reasonCodes.map ReasonCode.toJson)),
      ("containerCount", number side.hardCheck.containerCount),
      ("stableSamples", number side.hardCheck.stableSamples)]),
   ("containers", array (side.containers.map ContainerSnapshot.toJson)),
   ("logCollection", object
     [("status", side.logCollection.status.toJson),
      ("containerCount", number side.logCollection.containerCount)])]

def CleanupResult.toJson (cleanup : CleanupResult) : Json := object
  [("status", cleanup.status.toJson),
   ("leftoverPackages", strings cleanup.leftoverPackages),
   ("error", option string cleanup.error)]

def RunError.toJson (error : RunError) : Json := object
  [("code", error.code.toJson),
   ("message", string error.message),
   ("phase", error.phase.toJson)]

def HarnessResult.toJson (result : HarnessResult) : Json := object
  [("schemaVersion", number result.schemaVersion),
   ("runId", string result.runId),
   ("source", object
     [("repository", string result.source.repository),
      ("pullRequest", number result.source.pullRequest),
      ("headSha", string result.source.headSha)]),
   ("package", object
     [("dnpName", string result.package.dnpName),
      ("baselineRequestedRef", option string result.package.baselineRequestedRef),
      ("baselineResolvedVersion", option string result.package.baselineResolvedVersion),
      ("candidateRef", string result.package.candidateRef),
      ("candidateReportedVersion", option string result.package.candidateReportedVersion)]),
   ("execution", object
     [("status", result.execution.status.toJson),
      ("startedAt", string result.execution.startedAt),
      ("finishedAt", string result.execution.finishedAt),
      ("durationMs", number result.execution.durationMs)]),
   ("verdict", result.verdict.toJson),
   ("reasonCode", result.reasonCode.toJson),
   ("summary", string result.summary),
   ("baseline", result.baseline.toJson),
   ("candidate", result.candidate.toJson),
   ("comparison", result.comparison.toJson),
   ("logAnalysis", result.logAnalysis.toJson),
   ("cleanup", result.cleanup.toJson),
   ("errors", array (result.errors.map RunError.toJson))]

end PackageHarness
