/-
# PackageHarness.Runner.Comparison — comparing the two sides and assembling the result.

Pure functions of the captured evidence: the comparison of baseline and candidate, the
deterministic verdict with its advisory override, and the result record that is delivered.
-/
import PackageHarness.Runner.Stabilization

namespace PackageHarness

open Redaction

namespace Runner

def containerNames (capture : CaptureEvidence) : List String :=
  sortNames ((capture.details.map fun details => details.containers.map (·.name)).getD [])

/-- The elements of `names` that `others` lacks, ascending and without repetition. -/
def nameDifference (names others : List String) : List String :=
  (sortNames names).eraseDups.filter fun name => !others.contains name

def reportedVersion (capture : Option CaptureEvidence) : Option String := do
  let capture ← capture
  let details ← capture.details
  details.version

def compare (baseline candidate : CaptureEvidence) : ComparisonEvidence where
  baselineHardCheck := baseline.stabilization.passed
  candidateHardCheck := candidate.stabilization.passed
  baselineContainers := containerNames baseline
  candidateContainers := containerNames candidate
  containersAdded := nameDifference (containerNames candidate) (containerNames baseline)
  containersRemoved := nameDifference (containerNames baseline) (containerNames candidate)
  baselineVersion := reportedVersion (some baseline)
  candidateVersion := reportedVersion (some candidate)
  baselineStabilizationMs := baseline.stabilization.durationMs
  candidateStabilizationMs := candidate.stabilization.durationMs
  baselineLastNonRunningStates := baseline.stabilization.lastNonRunningStates
  candidateLastNonRunningStates := candidate.stabilization.lastNonRunningStates
  baselineLogsCollected := baseline.logs.isSome
  candidateLogsCollected := candidate.logs.isSome
  deterministicRegressions :=
    if baseline.stabilization.passed && !candidate.stabilization.passed then
      ["candidate containers did not become stably running"]
    else []

def deterministicVerdict (comparison : ComparisonEvidence) (analysis : LogAnalysisResult) :
    Verdict × ReasonCode × String :=
  match comparison.baselineHardCheck, comparison.candidateHardCheck with
  | true, false =>
      (.failed, .candidateContainersUnstable,
        "The canonical baseline stabilized, but the candidate did not")
  | true, true =>
      if analysis.status = .critical then
        (.warning, .candidateContainersStable,
          "Both versions stabilized; advisory log analysis found a critical " ++
            "candidate-only signature")
      else
        (.passed, .candidateContainersStable,
          "Baseline and candidate containers became stably running")
  | false, true =>
      (.warning, .baselineContainersUnstable,
        "The candidate stabilized, but the canonical control was unhealthy, " ++
          "so this is not a clean pass")
  | false, false =>
      (.inconclusive, .baselineContainersUnstable,
        "Neither baseline nor candidate became stably running")

def analysisFailure (message : String) : LogAnalysisResult where
  analyzer := .heuristic
  status := .inconclusive
  summary := "Log analysis was unavailable"
  baseline := ⟨.inconclusive, "Analysis unavailable"⟩
  candidate := ⟨.inconclusive, "Analysis unavailable"⟩
  newFindings := []
  analyzerErrors := [truncateUtf8 message 300]
  components := []

def inconclusiveAnalysis : LogAnalysisResult :=
  analysisFailure "run ended before comparative log analysis"

def comparisonFromPartial (evidence : RunEvidence) : ComparisonEvidence :=
  match evidence.baseline, evidence.candidate with
  | some baseline, some candidate => compare baseline candidate
  | baseline, _ =>
      { baselineHardCheck := (baseline.map (·.stabilization.passed)).getD false
        candidateHardCheck := false
        baselineContainers := []
        candidateContainers := []
        containersAdded := []
        containersRemoved := []
        baselineVersion := reportedVersion baseline
        candidateVersion := none
        baselineStabilizationMs := (baseline.map (·.stabilization.durationMs)).getD 0
        candidateStabilizationMs := 0
        baselineLastNonRunningStates := []
        candidateLastNonRunningStates := []
        baselineLogsCollected := (baseline.map (·.logs.isSome)).getD false
        candidateLogsCollected := false
        deterministicRegressions := [] }

def resultSide (capture : Option CaptureEvidence) (unstableReason : ReasonCode) : ResultSide :=
  let containers := ((capture.bind (·.details)).map (·.containers)).getD []
  let passed := (capture.map (·.stabilization.passed)).getD false
  { install :=
      { status := (capture.map (·.installStatus)).getD .failed
        durationMs := (capture.map (·.installDurationMs)).getD 0 }
    hardCheck :=
      { passed := passed
        reasonCodes := if passed then [] else [unstableReason]
        containerCount := containers.length
        stableSamples := (capture.map (·.stabilization.stableSamples)).getD 0 }
    containers := containers
    logCollection :=
      { status := if (capture.bind (·.logs)).isSome then .passed else .failed
        containerCount := ((capture.bind (·.logs)).map (·.entries.length)).getD 0 } }

/-- The delivered result. `current` is the clock reading for a missing finish time. -/
def buildResult (ext : Externals) (record : RunRecord) (comparison : ComparisonEvidence)
    (analysis : LogAnalysisResult) (verdict : Verdict) (reasonCode : ReasonCode) (summary : String)
    (current : Timestamp) : HarnessResult :=
  let started := record.startedAt.getD record.createdAt
  let finished := record.finishedAt.getD current
  { schemaVersion := 1
    runId := record.request.runId.value
    source := record.request.source
    package :=
      { dnpName := record.request.package.dnpName.value
        baselineRequestedRef := record.request.package.baselineRef.map (·.value)
        baselineResolvedVersion := reportedVersion record.evidence.baseline
        candidateRef := record.request.package.candidateRef.value
        candidateReportedVersion := reportedVersion record.evidence.candidate }
    execution :=
      { status := .completed
        startedAt := ext.toRfc3339 started
        finishedAt := ext.toRfc3339 finished
        durationMs := elapsedMs started finished }
    verdict := verdict
    reasonCode := reasonCode
    summary := summary
    baseline := resultSide record.evidence.baseline .baselineContainersUnstable
    candidate := resultSide record.evidence.candidate .candidateContainersUnstable
    comparison := comparison
    logAnalysis := analysis
    cleanup := record.cleanup
    errors := record.errors }

end Runner

end PackageHarness
