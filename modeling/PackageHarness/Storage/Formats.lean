/-
# PackageHarness.Storage.Formats — the JSON that run records are stored as.

One format for each type that a run record holds, as its attributes in the source derive it:
camel-case members in declaration order, snake-case enumeration values. Members of `Option` type may
be missing, and other names are passed over except in the closed types of the log analysis.
-/
import PackageHarness.Coordinator.Json
import PackageHarness.Storage.File
import PackageHarness.Text.JsonReader
import PackageHarness.Text.Serde

namespace PackageHarness

open Serde

/-! ## Enumerations -/

def ReasonCode.format : Format ReasonCode :=
  .enumeration toJson
    [candidateContainersStable, candidateContainersUnstable, candidateInstallFailed,
      baselineContainersUnstable, baselineInstallFailed, baselineSignatureInvalid,
      baselineUnavailable, unsupportedRequiredSetup, corePackageRefused, harnessPackageRefused,
      cleanupFailed, mcpUnavailable, requiredMcpToolsMissing, persistenceFailed,
      interruptedOnRestart, cancellationRequested, claimLost, unexpectedError]
    (by intro code; cases code <;> rfl)

def Verdict.format : Format Verdict :=
  .enumeration toJson [passed, failed, warning, inconclusive, infrastructureError]
    (by intro verdict; cases verdict <;> rfl)

def AnalyzerStatus.format : Format AnalyzerStatus :=
  .enumeration toJson [clean, suspicious, critical, inconclusive]
    (by intro status; cases status <;> rfl)

def AnalyzerKind.format : Format AnalyzerKind :=
  .enumeration toJson [heuristic, nexus, composite] (by intro kind; cases kind <;> rfl)

def FindingSeverity.format : Format FindingSeverity :=
  .enumeration toJson [warning, critical] (by intro severity; cases severity <;> rfl)

def StepStatus.format : Format StepStatus :=
  .enumeration toJson [pending, passed, failed] (by intro status; cases status <;> rfl)

def ExecutionStatus.format : Format ExecutionStatus :=
  .enumeration toJson [queued, running, completed, interrupted]
    (by intro status; cases status <;> rfl)

def CleanupStatus.format : Format CleanupStatus :=
  .enumeration toJson [pending, passed, failed, timedOut, skipped]
    (by intro status; cases status <;> rfl)

def WorkerErrorCode.format : Format WorkerErrorCode :=
  .enumeration toJson [interrupted, unsupportedJob, cleanupFailed, localPersistenceFailed,
      unexpectedError]
    (by intro code; cases code <;> rfl)

def ExecutionPhase.format : Format ExecutionPhase :=
  .enumeration toJson
    [queued, preflight, baselinePreview, baselineInstall, baselineStabilization, baselineCapture,
      candidatePreview, candidateInstall, candidateStabilization, candidateCapture, analysis,
      cleanup, reporting, finished]
    (by intro phase; cases phase <;> rfl)

def ManualRecoveryKind.toJson : ManualRecoveryKind → Json
  | cleanup => .string "cleanup"
  | completionConflict => .string "completion_conflict"

def ManualRecoveryKind.format : Format ManualRecoveryKind :=
  .enumeration toJson [cleanup, completionConflict] (by intro kind; cases kind <;> rfl)

def TargetRecoveryPlan.toJson : TargetRecoveryPlan → Json
  | remove => .string "remove"
  | restoreLatest => .string "restore_latest"

def TargetRecoveryPlan.format : Format TargetRecoveryPlan :=
  .enumeration toJson [remove, restoreLatest] (by intro plan; cases plan <;> rfl)

/-! ## Texts of other crates -/

/-- How the shared package types and the timestamps are written and read. Each of them reads its own
text as the value that has it. -/
structure ForeignTexts where
  readDnpName : String → Option DnpName
  readPackageRef : String → Option PackageRef
  writeTimestamp : Timestamp → String
  readTimestamp : String → Option Timestamp
  dnpName : ∀ {text name}, readDnpName text = some name → readDnpName name.value = some name
  packageRef : ∀ {text reference}, readPackageRef text = some reference →
    readPackageRef reference.value = some reference
  timestamp : ∀ {text time}, readTimestamp text = some time →
    readTimestamp (writeTimestamp time) = some time

section Records

variable (foreign : ForeignTexts)

def DnpName.format : Format DnpName :=
  .parsed DnpName.value foreign.readDnpName foreign.dnpName

def PackageRef.format : Format PackageRef :=
  .parsed PackageRef.value foreign.readPackageRef foreign.packageRef

def Timestamp.format : Format Timestamp :=
  .parsed foreign.writeTimestamp foreign.readTimestamp foreign.timestamp

/-! ## Requests -/

/-- The id is not checked again when it is read. -/
def RunId.format : Format RunId := .parsed RunId.value (fun text => some ⟨text⟩) (fun _ => rfl)

def RunSource.format : Format RunSource :=
  .object false
    (.fields
      ((Members.required "repository" .string).and <|
        (Members.required "pullRequest" (.number 64)).and <|
        Members.required "headSha" .string)
      (fun (repository, pullRequest, headSha) => ⟨repository, pullRequest, headSha⟩)
      (fun source => (source.repository, source.pullRequest, source.headSha)))

def PackageRequest.format : Format PackageRequest :=
  .object false
    (.fields
      ((Members.required "dnpName" (DnpName.format foreign)).and <|
        (Members.required "candidateRef" (PackageRef.format foreign)).and <|
        Members.optional "baselineRef" (PackageRef.format foreign))
      (fun (dnpName, candidateRef, baselineRef) => ⟨dnpName, candidateRef, baselineRef⟩)
      (fun package => (package.dnpName, package.candidateRef, package.baselineRef)))

def RunRequest.format : Format RunRequest :=
  .object false
    (.fields
      ((Members.required "schemaVersion" (.number 8)).and <|
        (Members.required "runId" RunId.format).and <|
        (Members.required "source" RunSource.format).and <|
        Members.required "package" (PackageRequest.format foreign))
      (fun (schemaVersion, runId, source, package) => ⟨schemaVersion, runId, source, package⟩)
      (fun request => (request.schemaVersion, request.runId, request.source, request.package)))

/-! ## Package evidence -/

def PackageSummary.format : Format PackageSummary :=
  .object false
    (.fields
      ((Members.required "dnpName" (DnpName.format foreign)).and <|
        (Members.optional "version" .string).and <|
        Members.required "isCore" .bool)
      (fun (dnpName, version, isCore) => ⟨dnpName, version, isCore⟩)
      (fun summary => (summary.dnpName, summary.version, summary.isCore)))

def ContainerSnapshot.format : Format ContainerSnapshot :=
  .object false
    (.fields
      ((Members.required "name" .string).and <|
        (Members.optional "serviceName" .string).and <|
        (Members.optional "state" .string).and <|
        (Members.required "running" .bool).and <|
        (Members.optional "image" .string).and <|
        Members.optional "created" .string)
      (fun (name, serviceName, state, running, image, created) =>
        ⟨name, serviceName, state, running, image, created⟩)
      (fun container => (container.name, container.serviceName, container.state,
        container.running, container.image, container.created)))

/-- The origin is left out when there is none. -/
def PackageDetails.format : Format PackageDetails :=
  .object false
    (.fields
      ((Members.required "dnpName" (DnpName.format foreign)).and <|
        (Members.optional "version" .string).and <|
        (Members.skippedWhenNone "origin" .string).and <|
        Members.required "containers" (.array ContainerSnapshot.format))
      (fun (dnpName, version, origin, containers) => ⟨dnpName, version, origin, containers⟩)
      (fun details => (details.dnpName, details.version, details.origin, details.containers)))

def ContainerLog.format : Format ContainerLog :=
  .object false
    (.fields
      ((Members.optional "container" .string).and <| Members.required "text" .string)
      (fun (container, text) => ⟨container, text⟩)
      (fun log => (log.container, log.text)))

def PackageLogs.format : Format PackageLogs :=
  .object false
    (.fields (Members.required "entries" (.array ContainerLog.format))
      PackageLogs.mk PackageLogs.entries)

/-- The resolved reference is skipped. -/
def PreviewSummary.format : Format PreviewSummary :=
  .object false
    (.fields
      ((Members.optional "packageName" .string).and <|
        (Members.optional "version" .string).and <|
        (Members.absent none).and <|
        (Members.optional "imageCount" (.number 64)).and <|
        (Members.required "requiresUserInput" .bool).and <|
        Members.required "summary" .string)
      (fun (packageName, version, resolvedRef, imageCount, requiresUserInput, summary) =>
        ⟨packageName, version, resolvedRef, imageCount, requiresUserInput, summary⟩)
      (fun preview => (preview.packageName, preview.version, preview.resolvedRef,
        preview.imageCount, preview.requiresUserInput, preview.summary)))

def StabilizationSample.format : Format StabilizationSample :=
  .object false
    (.fields
      ((Members.required "observedAt" .string).and <|
        (Members.required "containerNames" (.array .string)).and <|
        (Members.required "allRunning" .bool).and <|
        (Members.required "nonRunningStates" (.array .string)).and <|
        Members.optional "error" .string)
      (fun (observedAt, containerNames, allRunning, nonRunningStates, error) =>
        ⟨observedAt, containerNames, allRunning, nonRunningStates, error⟩)
      (fun sample => (sample.observedAt, sample.containerNames, sample.allRunning,
        sample.nonRunningStates, sample.error)))

def StabilizationResult.format : Format StabilizationResult :=
  .object false
    (.fields
      ((Members.required "passed" .bool).and <|
        (Members.required "stableSamples" (.number 64)).and <|
        (Members.required "durationMs" (.number 64)).and <|
        (Members.required "samples" (.array StabilizationSample.format)).and <|
        Members.required "lastNonRunningStates" (.array .string))
      (fun (passed, stableSamples, durationMs, samples, lastNonRunningStates) =>
        ⟨passed, stableSamples, durationMs, samples, lastNonRunningStates⟩)
      (fun result => (result.passed, result.stableSamples, result.durationMs, result.samples,
        result.lastNonRunningStates)))

def CaptureEvidence.format : Format CaptureEvidence :=
  .object false
    (.fields
      ((Members.required "installStatus" StepStatus.format).and <|
        (Members.required "installDurationMs" (.number 64)).and <|
        (Members.optional "preview" PreviewSummary.format).and <|
        (Members.optional "details" (PackageDetails.format foreign)).and <|
        (Members.required "stabilization" StabilizationResult.format).and <|
        (Members.optional "logs" PackageLogs.format).and <|
        (Members.optional "logError" .string).and <|
        (Members.required "startedAt" .string).and <|
        Members.required "finishedAt" .string)
      (fun (installStatus, installDurationMs, preview, details, stabilization, logs, logError,
          startedAt, finishedAt) =>
        ⟨installStatus, installDurationMs, preview, details, stabilization, logs, logError,
          startedAt, finishedAt⟩)
      (fun capture => (capture.installStatus, capture.installDurationMs, capture.preview,
        capture.details, capture.stabilization, capture.logs, capture.logError, capture.startedAt,
        capture.finishedAt)))

def ComparisonEvidence.format : Format ComparisonEvidence :=
  .object false
    (.fields
      ((Members.required "baselineHardCheck" .bool).and <|
        (Members.required "candidateHardCheck" .bool).and <|
        (Members.required "baselineContainers" (.array .string)).and <|
        (Members.required "candidateContainers" (.array .string)).and <|
        (Members.required "containersAdded" (.array .string)).and <|
        (Members.required "containersRemoved" (.array .string)).and <|
        (Members.optional "baselineVersion" .string).and <|
        (Members.optional "candidateVersion" .string).and <|
        (Members.required "baselineStabilizationMs" (.number 64)).and <|
        (Members.required "candidateStabilizationMs" (.number 64)).and <|
        (Members.required "baselineLastNonRunningStates" (.array .string)).and <|
        (Members.required "candidateLastNonRunningStates" (.array .string)).and <|
        (Members.required "baselineLogsCollected" .bool).and <|
        (Members.required "candidateLogsCollected" .bool).and <|
        Members.required "deterministicRegressions" (.array .string))
      (fun (baselineHardCheck, candidateHardCheck, baselineContainers, candidateContainers,
          containersAdded, containersRemoved, baselineVersion, candidateVersion,
          baselineStabilizationMs, candidateStabilizationMs, baselineLastNonRunningStates,
          candidateLastNonRunningStates, baselineLogsCollected, candidateLogsCollected,
          deterministicRegressions) =>
        ⟨baselineHardCheck, candidateHardCheck, baselineContainers, candidateContainers,
          containersAdded, containersRemoved, baselineVersion, candidateVersion,
          baselineStabilizationMs, candidateStabilizationMs, baselineLastNonRunningStates,
          candidateLastNonRunningStates, baselineLogsCollected, candidateLogsCollected,
          deterministicRegressions⟩)
      (fun comparison => (comparison.baselineHardCheck, comparison.candidateHardCheck,
        comparison.baselineContainers, comparison.candidateContainers, comparison.containersAdded,
        comparison.containersRemoved, comparison.baselineVersion, comparison.candidateVersion,
        comparison.baselineStabilizationMs, comparison.candidateStabilizationMs,
        comparison.baselineLastNonRunningStates, comparison.candidateLastNonRunningStates,
        comparison.baselineLogsCollected, comparison.candidateLogsCollected,
        comparison.deterministicRegressions)))

/-! ## Log analysis -/

def AnalysisSide.format : Format AnalysisSide :=
  .object true
    (.fields
      ((Members.required "status" AnalyzerStatus.format).and <| Members.required "summary" .string)
      (fun (status, summary) => ⟨status, summary⟩)
      (fun side => (side.status, side.summary)))

def LogFinding.format : Format LogFinding :=
  .object true
    (.fields
      ((Members.required "severity" FindingSeverity.format).and <|
        (Members.optional "container" .string).and <|
        (Members.required "evidence" .string).and <|
        Members.required "reason" .string)
      (fun (severity, container, evidence, reason) => ⟨severity, container, evidence, reason⟩)
      (fun finding => (finding.severity, finding.container, finding.evidence, finding.reason)))

def AnalyzerComponent.format : Format AnalyzerComponent :=
  .object true
    (.fields
      ((Members.required "analyzer" AnalyzerKind.format).and <|
        (Members.required "status" AnalyzerStatus.format).and <|
        (Members.required "summary" .string).and <|
        (Members.required "newFindings" (.array LogFinding.format)).and <|
        Members.optional "error" .string)
      (fun (analyzer, status, summary, newFindings, error) =>
        ⟨analyzer, status, summary, newFindings, error⟩)
      (fun component => (component.analyzer, component.status, component.summary,
        component.newFindings, component.error)))

/-- The last two lists are left out when they are empty. -/
def LogAnalysisResult.format : Format LogAnalysisResult :=
  .object true
    (.fields
      ((Members.required "analyzer" AnalyzerKind.format).and <|
        (Members.required "status" AnalyzerStatus.format).and <|
        (Members.required "summary" .string).and <|
        (Members.required "baseline" AnalysisSide.format).and <|
        (Members.required "candidate" AnalysisSide.format).and <|
        (Members.required "newFindings" (.array LogFinding.format)).and <|
        (Members.skippedWhenEmpty "analyzerErrors" .string).and <|
        Members.skippedWhenEmpty "components" AnalyzerComponent.format)
      (fun (analyzer, status, summary, baseline, candidate, newFindings, analyzerErrors,
          components) =>
        ⟨analyzer, status, summary, baseline, candidate, newFindings, analyzerErrors, components⟩)
      (fun analysis => (analysis.analyzer, analysis.status, analysis.summary, analysis.baseline,
        analysis.candidate, analysis.newFindings, analysis.analyzerErrors, analysis.components)))

/-! ## Results -/

def ResultPackage.format : Format ResultPackage :=
  .object false
    (.fields
      ((Members.required "dnpName" .string).and <|
        (Members.optional "baselineRequestedRef" .string).and <|
        (Members.optional "baselineResolvedVersion" .string).and <|
        (Members.required "candidateRef" .string).and <|
        Members.optional "candidateReportedVersion" .string)
      (fun (dnpName, baselineRequestedRef, baselineResolvedVersion, candidateRef,
          candidateReportedVersion) =>
        ⟨dnpName, baselineRequestedRef, baselineResolvedVersion, candidateRef,
          candidateReportedVersion⟩)
      (fun package => (package.dnpName, package.baselineRequestedRef,
        package.baselineResolvedVersion, package.candidateRef, package.candidateReportedVersion)))

def ResultExecution.format : Format ResultExecution :=
  .object false
    (.fields
      ((Members.required "status" ExecutionStatus.format).and <|
        (Members.required "startedAt" .string).and <|
        (Members.required "finishedAt" .string).and <|
        Members.required "durationMs" (.number 64))
      (fun (status, startedAt, finishedAt, durationMs) =>
        ⟨status, startedAt, finishedAt, durationMs⟩)
      (fun execution => (execution.status, execution.startedAt, execution.finishedAt,
        execution.durationMs)))

def InstallResult.format : Format InstallResult :=
  .object false
    (.fields
      ((Members.required "status" StepStatus.format).and <|
        Members.required "durationMs" (.number 64))
      (fun (status, durationMs) => ⟨status, durationMs⟩)
      (fun install => (install.status, install.durationMs)))

def HardCheckResult.format : Format HardCheckResult :=
  .object false
    (.fields
      ((Members.required "passed" .bool).and <|
        (Members.required "reasonCodes" (.array ReasonCode.format)).and <|
        (Members.required "containerCount" (.number 64)).and <|
        Members.required "stableSamples" (.number 64))
      (fun (passed, reasonCodes, containerCount, stableSamples) =>
        ⟨passed, reasonCodes, containerCount, stableSamples⟩)
      (fun check => (check.passed, check.reasonCodes, check.containerCount, check.stableSamples)))

def LogCollectionResult.format : Format LogCollectionResult :=
  .object false
    (.fields
      ((Members.required "status" StepStatus.format).and <|
        Members.required "containerCount" (.number 64))
      (fun (status, containerCount) => ⟨status, containerCount⟩)
      (fun collection => (collection.status, collection.containerCount)))

def ResultSide.format : Format ResultSide :=
  .object false
    (.fields
      ((Members.required "install" InstallResult.format).and <|
        (Members.required "hardCheck" HardCheckResult.format).and <|
        (Members.required "containers" (.array ContainerSnapshot.format)).and <|
        Members.required "logCollection" LogCollectionResult.format)
      (fun (install, hardCheck, containers, logCollection) =>
        ⟨install, hardCheck, containers, logCollection⟩)
      (fun side => (side.install, side.hardCheck, side.containers, side.logCollection)))

def CleanupResult.format : Format CleanupResult :=
  .object false
    (.fields
      ((Members.required "status" CleanupStatus.format).and <|
        (Members.required "leftoverPackages" (.array .string)).and <|
        Members.optional "error" .string)
      (fun (status, leftoverPackages, error) => ⟨status, leftoverPackages, error⟩)
      (fun cleanup => (cleanup.status, cleanup.leftoverPackages, cleanup.error)))

def RunError.format : Format RunError :=
  .object false
    (.fields
      ((Members.required "code" ReasonCode.format).and <|
        (Members.required "message" .string).and <|
        Members.required "phase" ExecutionPhase.format)
      (fun (code, message, phase) => ⟨code, message, phase⟩)
      (fun error => (error.code, error.message, error.phase)))

def HarnessResult.format : Format HarnessResult :=
  .object false
    (.fields
      ((Members.required "schemaVersion" (.number 8)).and <|
        (Members.required "runId" .string).and <|
        (Members.required "source" RunSource.format).and <|
        (Members.required "package" ResultPackage.format).and <|
        (Members.required "execution" ResultExecution.format).and <|
        (Members.required "verdict" Verdict.format).and <|
        (Members.required "reasonCode" ReasonCode.format).and <|
        (Members.required "summary" .string).and <|
        (Members.required "baseline" ResultSide.format).and <|
        (Members.required "candidate" ResultSide.format).and <|
        (Members.required "comparison" ComparisonEvidence.format).and <|
        (Members.required "logAnalysis" LogAnalysisResult.format).and <|
        (Members.required "cleanup" CleanupResult.format).and <|
        Members.required "errors" (.array RunError.format))
      (fun (schemaVersion, runId, source, package, execution, verdict, reasonCode, summary,
          baseline, candidate, comparison, logAnalysis, cleanup, errors) =>
        ⟨schemaVersion, runId, source, package, execution, verdict, reasonCode, summary, baseline,
          candidate, comparison, logAnalysis, cleanup, errors⟩)
      (fun result => (result.schemaVersion, result.runId, result.source, result.package,
        result.execution, result.verdict, result.reasonCode, result.summary, result.baseline,
        result.candidate, result.comparison, result.logAnalysis, result.cleanup, result.errors)))

/-! ## Run records -/

def WorkerError.format : Format WorkerError :=
  .object false
    (.fields
      ((Members.required "code" WorkerErrorCode.format).and <|
        (Members.required "summary" .string).and <|
        Members.required "cleanupStatus" CleanupStatus.format)
      (fun (code, summary, cleanupStatus) => ⟨code, summary, cleanupStatus⟩)
      (fun error => (error.code, error.summary, error.cleanupStatus)))

def ManualRecovery.format : Format ManualRecovery :=
  .object false
    (.fields
      ((Members.required "kind" ManualRecoveryKind.format).and <|
        Members.required "reason" .string)
      (fun (kind, reason) => ⟨kind, reason⟩)
      (fun hold => (hold.kind, hold.reason)))

def WorkerState.format : Format WorkerState :=
  .object false
    (.fields
      ((Members.optional "claimToken" .string).and <|
        (Members.required "cleanupRequired" .bool).and <|
        (Members.required "targetRecovery" TargetRecoveryPlan.format).and <|
        (Members.optional "workerError" WorkerError.format).and <|
        (Members.optional "pendingCompletionBody" .string).and <|
        (Members.required "completionAcknowledged" .bool).and <|
        (Members.optional "completionDisposition" .string).and <|
        Members.optional "manualRecovery" ManualRecovery.format)
      (fun (claimToken, cleanupRequired, targetRecovery, workerError, pendingCompletionBody,
          completionAcknowledged, completionDisposition, manualRecovery) =>
        ⟨claimToken, cleanupRequired, targetRecovery, workerError, pendingCompletionBody,
          completionAcknowledged, completionDisposition, manualRecovery⟩)
      (fun worker => (worker.claimToken, worker.cleanupRequired, worker.targetRecovery,
        worker.workerError, worker.pendingCompletionBody, worker.completionAcknowledged,
        worker.completionDisposition, worker.manualRecovery)))

open Members in
theorem WorkerState.format_initial :
    WorkerState.format.Fits {} ∧ WorkerState.format.seen {} = {} := by
  refine ⟨?_, rfl⟩
  exact Format.fits_object <| fits_and fits_none <| fits_and trivial <| fits_and trivial <|
    fits_and fits_none <| fits_and fits_none <| fits_and trivial <| fits_and fits_none fits_none

def PhaseTransition.format : Format PhaseTransition :=
  .object false
    (.fields
      ((Members.required "phase" ExecutionPhase.format).and <|
        Members.required "at" (Timestamp.format foreign))
      (fun (phase, at_) => ⟨phase, at_⟩)
      (fun transition => (transition.phase, transition.at_)))

def RunEvidence.format : Format RunEvidence :=
  .object false
    (.fields
      ((Members.required "initialPackages" (.array (PackageSummary.format foreign))).and <|
        (Members.required "finalPackages" (.array (PackageSummary.format foreign))).and <|
        (Members.optional "baseline" (CaptureEvidence.format foreign)).and <|
        (Members.optional "candidate" (CaptureEvidence.format foreign)).and <|
        (Members.optional "comparison" ComparisonEvidence.format).and <|
        Members.optional "logAnalysis" LogAnalysisResult.format)
      (fun (initialPackages, finalPackages, baseline, candidate, comparison, logAnalysis) =>
        ⟨initialPackages, finalPackages, baseline, candidate, comparison, logAnalysis⟩)
      (fun evidence => (evidence.initialPackages, evidence.finalPackages, evidence.baseline,
        evidence.candidate, evidence.comparison, evidence.logAnalysis)))

/-- A record without a `worker` has the initial one. -/
def RunRecord.format : Format RunRecord :=
  .object false
    (.fields
      ((Members.required "request" (RunRequest.format foreign)).and <|
        (Members.required "status" ExecutionStatus.format).and <|
        (Members.required "phase" ExecutionPhase.format).and <|
        (Members.required "createdAt" (Timestamp.format foreign)).and <|
        (Members.optional "startedAt" (Timestamp.format foreign)).and <|
        (Members.optional "finishedAt" (Timestamp.format foreign)).and <|
        (Members.required "phaseHistory" (.array (PhaseTransition.format foreign))).and <|
        (Members.required "evidence" (RunEvidence.format foreign)).and <|
        (Members.required "errors" (.array RunError.format)).and <|
        (Members.required "cleanup" CleanupResult.format).and <|
        (Members.optional "result" HarnessResult.format).and <|
        Members.withDefault "worker" WorkerState.format {} WorkerState.format_initial)
      (fun (request, status, phase, createdAt, startedAt, finishedAt, phaseHistory, evidence,
          errors, cleanup, result, worker) =>
        ⟨request, status, phase, createdAt, startedAt, finishedAt, phaseHistory, evidence, errors,
          cleanup, result, worker⟩)
      (fun record => (record.request, record.status, record.phase, record.createdAt,
        record.startedAt, record.finishedAt, record.phaseHistory, record.evidence, record.errors,
        record.cleanup, record.result, record.worker)))

/-! ## What readers see of a record -/

section Seen

attribute [local simp] ReasonCode.format Verdict.format AnalyzerStatus.format AnalyzerKind.format
  FindingSeverity.format StepStatus.format ExecutionStatus.format CleanupStatus.format
  WorkerErrorCode.format ExecutionPhase.format ManualRecoveryKind.format TargetRecoveryPlan.format
  DnpName.format PackageRef.format Timestamp.format RunId.format

@[simp] theorem RunSource.format_seen : RunSource.format.seen = id :=
  Format.object_fields_seen fun _ => by simp

@[simp] theorem PackageRequest.format_seen : (PackageRequest.format foreign).seen = id :=
  Format.object_fields_seen fun _ => by simp

@[simp] theorem RunRequest.format_seen : (RunRequest.format foreign).seen = id :=
  Format.object_fields_seen fun _ => by simp

@[simp] theorem PackageSummary.format_seen : (PackageSummary.format foreign).seen = id :=
  Format.object_fields_seen fun _ => by simp

@[simp] theorem ContainerSnapshot.format_seen : ContainerSnapshot.format.seen = id :=
  Format.object_fields_seen fun _ => by simp

@[simp] theorem PackageDetails.format_seen : (PackageDetails.format foreign).seen = id :=
  Format.object_fields_seen fun _ => by simp

@[simp] theorem ContainerLog.format_seen : ContainerLog.format.seen = id :=
  Format.object_fields_seen fun _ => by simp

@[simp] theorem PackageLogs.format_seen : PackageLogs.format.seen = id :=
  Format.object_fields_seen fun _ => by simp

@[simp] theorem StabilizationSample.format_seen : StabilizationSample.format.seen = id :=
  Format.object_fields_seen fun _ => by simp

@[simp] theorem StabilizationResult.format_seen : StabilizationResult.format.seen = id :=
  Format.object_fields_seen fun _ => by simp

@[simp] theorem ComparisonEvidence.format_seen : ComparisonEvidence.format.seen = id :=
  Format.object_fields_seen fun _ => by simp

@[simp] theorem AnalysisSide.format_seen : AnalysisSide.format.seen = id :=
  Format.object_fields_seen fun _ => by simp

@[simp] theorem LogFinding.format_seen : LogFinding.format.seen = id :=
  Format.object_fields_seen fun _ => by simp

@[simp] theorem AnalyzerComponent.format_seen : AnalyzerComponent.format.seen = id :=
  Format.object_fields_seen fun _ => by simp

@[simp] theorem LogAnalysisResult.format_seen : LogAnalysisResult.format.seen = id :=
  Format.object_fields_seen fun _ => by simp

@[simp] theorem ResultPackage.format_seen : ResultPackage.format.seen = id :=
  Format.object_fields_seen fun _ => by simp

@[simp] theorem ResultExecution.format_seen : ResultExecution.format.seen = id :=
  Format.object_fields_seen fun _ => by simp

@[simp] theorem InstallResult.format_seen : InstallResult.format.seen = id :=
  Format.object_fields_seen fun _ => by simp

@[simp] theorem HardCheckResult.format_seen : HardCheckResult.format.seen = id :=
  Format.object_fields_seen fun _ => by simp

@[simp] theorem LogCollectionResult.format_seen : LogCollectionResult.format.seen = id :=
  Format.object_fields_seen fun _ => by simp

@[simp] theorem ResultSide.format_seen : ResultSide.format.seen = id :=
  Format.object_fields_seen fun _ => by simp

@[simp] theorem CleanupResult.format_seen : CleanupResult.format.seen = id :=
  Format.object_fields_seen fun _ => by simp

@[simp] theorem RunError.format_seen : RunError.format.seen = id :=
  Format.object_fields_seen fun _ => by simp

@[simp] theorem HarnessResult.format_seen : HarnessResult.format.seen = id :=
  Format.object_fields_seen fun _ => by simp

@[simp] theorem WorkerError.format_seen : WorkerError.format.seen = id :=
  Format.object_fields_seen fun _ => by simp

@[simp] theorem ManualRecovery.format_seen : ManualRecovery.format.seen = id :=
  Format.object_fields_seen fun _ => by simp

@[simp] theorem WorkerState.format_seen : WorkerState.format.seen = id :=
  Format.object_fields_seen fun _ => by simp

@[simp] theorem PhaseTransition.format_seen : (PhaseTransition.format foreign).seen = id :=
  Format.object_fields_seen fun _ => by simp

@[simp] theorem PreviewSummary.format_seen :
    PreviewSummary.format.seen = fun preview => { preview with resolvedRef := none } :=
  Format.object_fields_seen fun _ => by simp

@[simp] theorem CaptureEvidence.format_seen :
    (CaptureEvidence.format foreign).seen = CaptureEvidence.persisted :=
  Format.object_fields_seen fun _ => by simp [CaptureEvidence.persisted]

@[simp] theorem RunEvidence.format_seen :
    (RunEvidence.format foreign).seen = RunEvidence.persisted :=
  Format.object_fields_seen fun _ => by simp [RunEvidence.persisted]

/-- Everything but the references that are never serialized. -/
@[simp] theorem RunRecord.format_seen :
    (RunRecord.format foreign).seen = RunRecord.persisted :=
  Format.object_fields_seen fun _ => by simp [RunRecord.persisted]

end Seen

end Records

open Members in
/-- The record of a job that was just claimed can be stored. -/
theorem RunRecord.fits_claimed {foreign : ForeignTexts} {request : RunRequest} {claimToken : String}
    {now : Timestamp} (hrequest : (RunRequest.format foreign).Fits request)
    (hnow : (Timestamp.format foreign).Fits now) :
    (RunRecord.format foreign).Fits (claimed request claimToken now) := by
  have htransition : (PhaseTransition.format foreign).Fits ⟨.queued, now⟩ :=
    Format.fits_object (fits_and trivial hnow)
  have hevidence : (RunEvidence.format foreign).Fits {} :=
    Format.fits_object <| fits_and Format.fits_nil <| fits_and Format.fits_nil <|
      fits_and fits_none <| fits_and fits_none <| fits_and fits_none fits_none
  have hcleanup : CleanupResult.format.Fits ⟨.pending, [], none⟩ :=
    Format.fits_object <| fits_and trivial <| fits_and Format.fits_nil fits_none
  have hworker : WorkerState.format.Fits { claimToken := some claimToken } :=
    Format.fits_object <| fits_and (fits_some trivial) <| fits_and trivial <| fits_and trivial <|
      fits_and fits_none <| fits_and fits_none <| fits_and trivial <| fits_and fits_none fits_none
  exact Format.fits_object <| fits_and hrequest <| fits_and trivial <| fits_and trivial <|
    fits_and hnow <| fits_and fits_none <| fits_and fits_none <|
    fits_and (Format.fits_singleton htransition) <| fits_and hevidence <|
    fits_and Format.fits_nil <| fits_and hcleanup <| fits_and fits_none hworker

/-! ## The texts -/

/-- The format of the run files. A text that the program wrote is read back; `elsewhere` is what the
parser makes of every other text. -/
def RunRecord.files (foreign : ForeignTexts) (elsewhere : String → Except String RunRecord) :
    RecordFormat String where
  toVecPretty record := .ok (((RunRecord.format foreign).write record).renderPretty 0)
  fromSlice text :=
    match (Json.readBack text).bind (RunRecord.format foreign).readBack with
    | some record =>
        if ((RunRecord.format foreign).write record).renderPretty 0 = text then .ok record
        else elsewhere text
    | none => elsewhere text
  Fits := (RunRecord.format foreign).Fits
  fromSlice_toVecPretty {record text} hfits htext := by
    cases htext
    have hread := (RunRecord.format foreign).read_write hfits
    have hwrite := (RunRecord.format foreign).write_seen record
    rw [Json.readBack_renderPretty]
    show (match (RunRecord.format foreign).readBack ((RunRecord.format foreign).write record) with
      | some record => if _ = _ then Except.ok record else elsewhere _
      | none => elsewhere _) = _
    rw [hread]
    show (if _ = _ then Except.ok ((RunRecord.format foreign).seen record) else elsewhere _) = _
    rw [hwrite, if_pos rfl, RunRecord.format_seen]

theorem HarnessResult.format_write (result : HarnessResult) :
    HarnessResult.format.write result = result.toJson := rfl

end PackageHarness
