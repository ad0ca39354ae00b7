/-
# PackageHarness.Guarantees.Passed — what it takes for a run to pass.

The verdict is put together from the way the algorithm ended, the table of hard checks, the advice
of the log analysis and two overlays. A run passes exactly when none of them has anything against
it, over every conversation of an execution with its surroundings.
-/
import PackageHarness.Conduct.Rehearsal

namespace PackageHarness

open Interaction Routine Conduct

variable {ext : Externals} {config : RunnerConfig} {runId : RunId} {record : RunRecord} {t : Trace}

/-- A side was captured, and its containers had become stably running. -/
def Stabilized (capture : Option CaptureEvidence) : Prop :=
  ∃ found, capture = some found ∧ found.stabilization.passed = true

/-- Nothing speaks against the run. -/
structure Flawless (ext : Externals) (config : RunnerConfig) (t : Trace) (final : RunRecord) :
    Prop where
  ended : ∃ ended part, AlgorithmEnds ext config t (.ok ()) ended part
  baseline : Stabilized final.evidence.baseline
  candidate : Stabilized final.evidence.candidate
  analysis : ∃ analysis, final.evidence.logAnalysis = some analysis ∧ analysis.status ≠ .critical
  signature : ¬ t.Mentions RunnerRequest.bypasses
  cleanup : ∃ saved, t.Saved .cleanup saved ∧ saved.cleanup.status = .passed

theorem deterministicVerdict_passed_iff {baseline candidate : CaptureEvidence}
    {analysis : LogAnalysisResult} :
    (Runner.deterministicVerdict (Runner.compare baseline candidate) analysis).1 = .passed ↔
      baseline.stabilization.passed = true ∧ candidate.stabilization.passed = true ∧
        analysis.status ≠ .critical := by
  unfold Runner.deterministicVerdict Runner.compare
  cases baseline.stabilization.passed <;> cases candidate.stabilization.passed <;>
    by_cases hcritical : analysis.status = .critical <;> simp [hcritical]

section

variable {request : RunRequest} {result : Except Failure Unit} {ended : Execution} {part : Trace}
  {cleaned final : RunRecord}

/-- The verdict of an execution whose algorithm has reached its end. -/
theorem Conduct.Concluded.passed_of_ok
    (h : Concluded ext config request (.ok ()) ended part cleaned final t) :
    (overlaid none cleaned).1 = .passed ↔ Flawless ext config t final := by
  have hanalyzed : Analyzed config request ended part := h.outcome
  obtain ⟨baseline, candidate, analysis, hbaseline, hcandidate, hanalysis, hdecided⟩ :=
    hanalyzed.decided h.cleanup.toKeeps
  have hsignature : NotesBypass cleaned.errors ↔ t.Mentions RunnerRequest.bypasses := by
    rw [h.cleanup.errors rfl, hanalyzed.notesBypass_iff,
      h.cleanup.toTail.mentions_iff not_closes_of_bypasses]
  rw [overlaid_passed_iff, hdecided, deterministicVerdict_passed_iff, hsignature,
    h.cleanup.passed_iff hanalyzed.authorized]
  rw [← h.evidence] at hbaseline hcandidate hanalysis
  constructor
  · rintro ⟨⟨hstable, hstable', hadvice⟩, hcleaned, hunbypassed⟩
    exact ⟨⟨ended, part, h.algorithm⟩, ⟨baseline, hbaseline, hstable⟩,
      ⟨candidate, hcandidate, hstable'⟩, ⟨analysis, hanalysis, hadvice⟩, hunbypassed, hcleaned⟩
  · rintro ⟨_, ⟨old, hold, hstable⟩, ⟨new, hnew, hstable'⟩, ⟨advice, hadvice, hclear⟩, hunbypassed,
      hcleaned⟩
    cases hbaseline.symm.trans hold
    cases hcandidate.symm.trans hnew
    cases hanalysis.symm.trans hadvice
    exact ⟨⟨hstable, hstable', hclear⟩, hcleaned, hunbypassed⟩

end

/-- No early end passes. -/
theorem exitVerdict_ne_passed (request : RunnerRequest) (answer : request.Answer) :
    exitVerdict request answer ≠ .passed := by
  unfold exitVerdict blame
  split
  · split
    · simp
    · split <;> try simp
      split <;> simp
  · split <;> simp
  · simp

/-- After an early end, the last answer of the algorithm decides the verdict. -/
theorem Conduct.Concluded.exit {request : RunRequest} {failure : Failure} {ended : Execution}
    {part : Trace} {cleaned final : RunRecord}
    (h : Concluded ext config request (.error failure) ended part cleaned final t) :
    ∃ last answer earlier, part = ⟨last, answer⟩ :: earlier ∧
      (overlaid (some failure) cleaned).1 = exitVerdict last answer ∧
      failure.verdict = exitVerdict last answer ∧ Trace.Unrefused earlier := by
  have hearly : Early config request failure ended part := h.outcome
  obtain ⟨last, answer, earlier, hpart, hexit, hunrefused⟩ := hearly.exit
  have hdecided : (decided (some failure) cleaned).1 ≠ .passed := by
    show failure.verdict ≠ .passed
    rw [hexit]
    exact exitVerdict_ne_passed last answer
  exact ⟨last, answer, earlier, hpart, (overlaid_of_not_passed hdecided).1.trans hexit, hexit,
    hunrefused⟩

theorem Conduct.Concluded.passed_of_error {request : RunRequest} {failure : Failure}
    {ended : Execution} {part : Trace} {cleaned final : RunRecord}
    (h : Concluded ext config request (.error failure) ended part cleaned final t) :
    (overlaid (some failure) cleaned).1 ≠ .passed := by
  obtain ⟨last, answer, _, _, hverdict, _⟩ := h.exit
  rw [hverdict]
  exact exitVerdict_ne_passed last answer

/-- The end of the algorithm lies behind the installation of the candidate and both checks. -/
theorem Conduct.Concluded.reached_end {request : RunRequest} {ended : Execution} {part : Trace}
    {cleaned final : RunRecord}
    (h : Concluded ext config request (.ok ()) ended part cleaned final t) :
    t.Called (.updatePackage request.package.dnpName request.package.candidateRef) (.ok ()) ∧
      final.evidence.Checked := by
  have hanalyzed : Analyzed config request ended part := h.outcome
  refine ⟨h.cleanup.grown.subset hanalyzed.updated, fun capture hcapture => ?_,
    fun capture hcapture => ?_⟩
  · rw [h.evidence, h.cleanup.baseline] at hcapture
    exact hanalyzed.fits.1 capture hcapture
  · rw [h.evidence, h.cleanup.candidate] at hcapture
    exact hanalyzed.fits.2 capture hcapture

/-- An execution that passed has nothing to report. -/
theorem Conduct.Concluded.spotless {request : RunRequest} {ended : Execution} {part : Trace}
    {cleaned final : RunRecord}
    (h : Concluded ext config request (.ok ()) ended part cleaned final t)
    (hpassed : (overlaid none cleaned).1 = .passed) :
    (Runner.noteCleanupFailure cleaned).errors = [] ∧ cleaned.cleanup.leftoverPackages = [] := by
  have hanalyzed : Analyzed config request ended part := h.outcome
  obtain ⟨_, hfine, hunnoted⟩ := overlaid_passed_iff.mp hpassed
  constructor
  · rw [noteCleanupFailure_of_fine hfine, h.cleanup.errors rfl]
    rw [h.cleanup.errors rfl, hanalyzed.notesBypass_iff] at hunnoted
    exact hanalyzed.unbypassed hunnoted
  · obtain ⟨saved, hsaved, hstatus⟩ := (h.cleanup.passed_iff hanalyzed.authorized).mp hfine
    rw [h.cleanup.reported saved hsaved] at hstatus
    rcases h.cleanup.outcome with ⟨_, _, hsettled⟩ | ⟨_, _, hnone⟩
    · exact hsettled.clean hstatus
    · exact absurd hsaved (hnone saved)

/-- An execution passes exactly if nothing speaks against it, and then it has nothing to report.
That its algorithm reached the end says that the candidate was installed and both captures fit. -/
theorem passed_iff_flawless (h : Executes ext config runId record (.ok ()) t) :
    ∃ final result, t.Persisted final ∧ final.result = some result ∧
      (result.verdict = .passed ↔ Flawless ext config t final) ∧
      (result.verdict = .passed → result.errors = [] ∧ result.cleanup.leftoverPackages = []) ∧
      ((∃ ended part, AlgorithmEnds ext config t (.ok ()) ended part) →
        t.Called (.updatePackage record.request.package.dnpName
          record.request.package.candidateRef) (.ok ()) ∧ final.evidence.Checked) := by
  obtain ⟨outcome, ended, part, cleaned, final, hconcluded⟩ := executes_concluded h
  obtain ⟨finished, hconclusion⟩ := hconcluded.conclusion
  obtain ⟨result, hresult, hverdict, _, herrors, hcleanup⟩ := conclude_result
  refine ⟨final, result, hconcluded.persisted, hconclusion.trans hresult, ?_⟩
  rw [hverdict, herrors, hcleanup]
  rcases outcome with failure | _
  · have hfailed := hconcluded.passed_of_error
    have hnever : ¬ ∃ ended part, AlgorithmEnds ext config t (.ok ()) ended part := by
      rintro ⟨ended', part', hends⟩
      cases (hconcluded.algorithm.unique hends).1
    exact ⟨⟨fun hpassed => absurd hpassed hfailed, fun hflawless => absurd hflawless.ended hnever⟩,
      fun hpassed => absurd hpassed hfailed, fun hends => absurd hends hnever⟩
  · exact ⟨hconcluded.passed_of_ok, hconcluded.spotless, fun _ => hconcluded.reached_end⟩

/-- The sample job against surroundings in which everything goes well. -/
def passing : Showing fun c => Sample.concludes c fun final =>
    final.result.any fun result => result.verdict = .passed :=
  ⟨Sample.rehearse (Sample.answers (Sample.cooperates none none (.ok ()))), by decide +kernel⟩

theorem passing_flawless : ∃ final, passing.1.2.Persisted final ∧
    Flawless Sample.ext Sample.deployment.runner passing.1.2 final := by
  obtain ⟨hexecutes, final, hpersisted, htest⟩ := Sample.executes_rehearsed rfl passing.2
  obtain ⟨result, hresult, hverdict⟩ := Option.any_eq_true _ _ |>.mp htest
  obtain ⟨final', result', hpersisted', hresult', hiff, _⟩ := passed_iff_flawless hexecutes
  cases hpersisted.unique hpersisted'
  cases hresult.symm.trans hresult'
  exact ⟨final, hpersisted, hiff.mp (by simpa using hverdict)⟩

end PackageHarness
