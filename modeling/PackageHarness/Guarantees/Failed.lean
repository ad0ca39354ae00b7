/-
# PackageHarness.Guarantees.Failed — what a failed verdict says about the candidate.

A run fails if the candidate did not become stable next to a stable baseline, or if its installation
was refused. The code takes every error of the installation that it does not recognize as transient
for a refusal; among these are errors that are none of the candidate's doing, such as a rejected
token. Where no such error occurs, `failed` blames only the candidate.
-/
import PackageHarness.Guarantees.Passed

namespace PackageHarness

open Interaction Routine Conduct

namespace PackageManagerError

/-- Dappmanager itself reported the failure. -/
def ByTool : PackageManagerError → Prop
  | .tool _ _ => True
  | _ => False

/-- The failure is one of the harness or of its connection to Dappmanager. -/
def OfHarness : PackageManagerError → Prop
  | .configuration _ | .transport _ | .timeout _ | .invalidResponse _ _ => True
  | .tool _ _ | .requiredSetup | .notFound => False

end PackageManagerError

/-- Dappmanager rejected the candidate, with a message that is not classified as transient. -/
def Trace.Rejected (t : Trace) : Prop :=
  ∃ error, t.Refused error ∧ error.ByTool ∧ error.isTransientMutationFailure = false

/-- The baseline stabilized, the candidate did not, and no signal was seen up to the analysis. -/
structure Regressed (t : Trace) (evidence : RunEvidence) : Prop where
  baseline : Stabilized evidence.baseline
  candidate : ∃ found, evidence.candidate = some found ∧ found.stabilization.passed = false
  uninterrupted : t.Uninterrupted

/-- The verdict is no reproach for what the candidate did not do. -/
structure Just (ext : Externals) (config : RunnerConfig) (t : Trace) (evidence : RunEvidence)
    (verdict : Verdict) : Prop where
  failed : verdict = .failed → t.Rejected ∨ Regressed t evidence
  harness : ∀ {failure ended call error earlier}, error.OfHarness →
    AlgorithmEnds ext config t (.error failure) ended (⟨.pm call, .error error⟩ :: earlier) →
    verdict = .infrastructureError

variable {ext : Externals} {config : RunnerConfig} {runId : RunId} {record : RunRecord} {t : Trace}

theorem deterministicVerdict_failed_iff {baseline candidate : CaptureEvidence}
    {analysis : LogAnalysisResult} :
    (Runner.deterministicVerdict (Runner.compare baseline candidate) analysis).1 = .failed ↔
      baseline.stabilization.passed = true ∧ candidate.stabilization.passed = false := by
  unfold Runner.deterministicVerdict Runner.compare
  cases baseline.stabilization.passed <;> cases candidate.stabilization.passed <;>
    by_cases hcritical : analysis.status = .critical <;> simp [hcritical]

/-- Only a refused installation ends the algorithm with the verdict `failed`. -/
theorem refused_of_exit_failed {asked : RunnerRequest} {answer : asked.Answer} {earlier : Trace}
    (h : exitVerdict asked answer = .failed) :
    ∃ error, Trace.Refused (⟨asked, answer⟩ :: earlier) error ∧
      error.isTransientMutationFailure = false := by
  cases asked with
  | pm call =>
      rcases answer with error | reply
      · cases call with
        | updatePackage dnpName ref =>
            refine ⟨error, ⟨dnpName, ref, List.mem_cons_self ..⟩, ?_⟩
            by_contra htransient
            simp [exitVerdict, blame, htransient] at h
        | installPackage dnpName ref => cases error <;> cases h
        | installPackageBypassingSignature dnpName ref => cases error <;> cases h
        | _ => cases h
      · cases h
  | control => cases answer <;> cases h
  | _ => cases h

/-- An error of the harness that ends the algorithm makes an infrastructure error, unless the
installation of the candidate is taken for refused. -/
theorem exit_of_harness {call : PmCall} {error : PackageManagerError} (hharness : error.OfHarness)
    (h : (∃ dnpName ref, call = .updatePackage dnpName ref) →
      error.isTransientMutationFailure = true) :
    exitVerdict (.pm call) (.error error) = .infrastructureError := by
  cases call with
  | updatePackage dnpName ref => simp [exitVerdict, blame, h ⟨dnpName, ref, rfl⟩]
  | installPackage dnpName ref => cases error <;> first | rfl | exact hharness.elim
  | installPackageBypassingSignature dnpName ref =>
      cases error <;> first | rfl | exact hharness.elim
  | _ => rfl

/-! ## Over whole executions -/

section

variable {request : RunRequest} {ended : Execution} {part : Trace} {cleaned final : RunRecord}

theorem not_closes_of_refused {dnpName : DnpName} {ref : PackageRef} :
    ¬ Closes (.pm (.updatePackage dnpName ref)) :=
  id

/-- The tail does not install the candidate. -/
theorem Conduct.Tail.refused_iff (h : Tail part t) {error : PackageManagerError} :
    t.Refused error ↔ part.Refused error := by
  constructor
  · rintro ⟨dnpName, ref, hcalled⟩
    exact ⟨dnpName, ref, (h.mem_iff not_closes_of_refused).mp hcalled⟩
  · rintro ⟨dnpName, ref, hcalled⟩
    exact ⟨dnpName, ref, h.grown.subset hcalled⟩

/-- Behind the end of the algorithm, a failed verdict is a regression. -/
theorem Conduct.Concluded.regressed
    (h : Concluded ext config request (.ok ()) ended part cleaned final t) (hsticky : t.Sticky)
    (hfailed : (overlaid none cleaned).1 = .failed) : Regressed t final.evidence := by
  have hanalyzed : Analyzed config request ended part := h.outcome
  obtain ⟨baseline, candidate, analysis, hbaseline, hcandidate, _, hdecided⟩ :=
    hanalyzed.decided h.cleanup.toKeeps
  rw [overlaid_failed_iff, hdecided, deterministicVerdict_failed_iff] at hfailed
  refine ⟨⟨baseline, by rw [h.evidence, hbaseline], hfailed.1⟩,
    ⟨candidate, by rw [h.evidence, hcandidate], hfailed.2⟩, fun signal hsignal => ?_⟩
  -- the tail does not read the signal
  have hmem : ⟨.control, signal⟩ ∈ part := (h.cleanup.toTail.mem_iff id).mp hsignal
  exact hanalyzed.steady (hsticky.of_suffix h.cleanup.grown) signal hmem

/-- After an early end, the verdict is just unless an error of the harness was taken for a refusal
of the candidate. -/
theorem Conduct.Concluded.just_of_error {failure : Failure}
    (h : Concluded ext config request (.error failure) ended part cleaned final t) :
    Just ext config t final.evidence (overlaid (some failure) cleaned).1 ↔
      ∀ error, t.Refused error → error.ByTool ∨ error.isTransientMutationFailure = true := by
  have hearly : Early config request failure ended part := h.outcome
  obtain ⟨last, answer, earlier, rfl, hverdict, hexit, hunrefused⟩ := h.exit
  -- a refusal is the last answer of the algorithm
  have hlast : ∀ error, t.Refused error → Trace.Refused [⟨last, answer⟩] error := by
    intro error hrefused
    rw [h.cleanup.toTail.refused_iff, Trace.refused_cons] at hrefused
    exact hrefused.resolve_right (hunrefused error)
  rw [hverdict]
  constructor
  · intro hjust error hrefused
    obtain ⟨dnpName, ref, hcalled⟩ := hlast error hrefused
    cases List.mem_singleton.mp hcalled
    by_contra hmisjudged
    obtain ⟨hforeign, hfinal⟩ := not_or.mp hmisjudged
    have hfailed : exitVerdict (.pm (.updatePackage dnpName ref)) (.error error) = .failed := by
      simp [exitVerdict, blame, hfinal]
    rcases hjust.failed hfailed with ⟨error', hrefused', htool, _⟩ | hregressed
    · obtain ⟨dnpName', ref', hcalled'⟩ := hlast error' hrefused'
      cases List.mem_singleton.mp hcalled'
      exact hforeign htool
    · obtain ⟨found, hfound, _⟩ := hregressed.candidate
      rw [h.evidence, h.cleanup.candidate, hearly.uncaptured (hexit.trans hfailed)] at hfound
      cases hfound
  · intro hrecognized
    refine ⟨fun hfailed => Or.inl ?_, ?_⟩
    · obtain ⟨error, hlast, hfinal⟩ := refused_of_exit_failed hfailed
      have hrefused : t.Refused error := h.cleanup.toTail.refused_iff.mpr hlast
      exact ⟨error, hrefused, (hrecognized error hrefused).resolve_right (by simp [hfinal]), hfinal⟩
    · intro failure' ended' call error earlier' hharness hends
      cases (h.algorithm.unique hends).2.2
      refine exit_of_harness hharness ?_
      rintro ⟨dnpName, ref, rfl⟩
      have hrefused : t.Refused error :=
        h.cleanup.toTail.refused_iff.mpr ⟨dnpName, ref, List.mem_cons_self ..⟩
      refine (hrecognized error hrefused).resolve_left fun htool => ?_
      cases error <;> first | exact htool | exact hharness

end

/-- The verdict of an execution is just exactly if every refusal of the candidate that is not
recognized as transient came from Dappmanager itself. -/
theorem just_iff (h : Executes ext config runId record (.ok ()) t) (hsticky : t.Sticky) :
    ∃ final result, t.Persisted final ∧ final.result = some result ∧
      (Just ext config t final.evidence result.verdict ↔
        ∀ error, t.Refused error → error.ByTool ∨ error.isTransientMutationFailure = true) := by
  obtain ⟨outcome, ended, part, cleaned, final, hconcluded⟩ := executes_concluded h
  obtain ⟨finished, hconclusion⟩ := hconcluded.conclusion
  obtain ⟨result, hresult, hverdict, _⟩ := conclude_result
  refine ⟨final, result, hconcluded.persisted, hconclusion.trans hresult, ?_⟩
  rw [hverdict]
  rcases outcome with failure | _
  · exact hconcluded.just_of_error
  · have hanalyzed : Analyzed config record.request ended part := hconcluded.outcome
    refine ⟨fun _ error hrefused => ?_, fun _ => ⟨fun hfailed => ?_, fun _ hends => ?_⟩⟩
    · rw [hconcluded.cleanup.toTail.refused_iff] at hrefused
      exact absurd hrefused (hanalyzed.unrefused error)
    · exact Or.inr (hconcluded.regressed hsticky hfailed)
    · cases (hconcluded.algorithm.unique hends).1

/-! ## A rejected token -/

/-- Dappmanager does not accept the token of the harness when the candidate is to be installed. -/
def unauthorized : PackageManagerError := .transport "401 Unauthorized"

def unauthorizedReply : (request : RunnerRequest) → request.Answer :=
  Sample.answers (Sample.cooperates none none (.error unauthorized))

def blamed : Showing fun c => Sample.concludes c (fun final =>
      final.result.any fun result => result.verdict = .failed) &&
    c.2.any fun x => x.request.isCall (.updatePackage Sample.target ⟨"0.2.0"⟩) :=
  ⟨Sample.rehearse unauthorizedReply, by decide +kernel⟩

theorem blamed_refused : blamed.1.2.Refused unauthorized :=
  ⟨_, _, Sample.called_of_asks (Bool.and_eq_true_iff.mp blamed.2).2⟩

theorem blamed_sticky : blamed.1.2.Sticky := (Sample.uninterrupted_rehearsed rfl).sticky

/-- A run that fails because the token of the harness was rejected. -/
theorem rejected_token_blames_candidate :
    ∃ t final result,
      Executes Sample.ext Sample.deployment.runner Sample.run Sample.job (.ok ()) t ∧
      t.Sticky ∧ t.Persisted final ∧ final.result = some result ∧ result.verdict = .failed ∧
      ¬ Just Sample.ext Sample.deployment.runner t final.evidence result.verdict := by
  obtain ⟨hconcludes, _⟩ := Bool.and_eq_true_iff.mp blamed.2
  obtain ⟨hexecutes, final, hpersisted, htest⟩ := Sample.executes_rehearsed rfl hconcludes
  obtain ⟨result, hresult, hfailed⟩ := Option.any_eq_true _ _ |>.mp htest
  refine ⟨blamed.1.2, final, result, hexecutes, blamed_sticky, hpersisted, hresult,
    by simpa using hfailed, fun hjust => ?_⟩
  obtain ⟨outcome, ended, part, cleaned, final', hconcluded⟩ := executes_concluded hexecutes
  cases hpersisted.unique hconcluded.persisted
  obtain ⟨finished, hconclusion⟩ := hconcluded.conclusion
  obtain ⟨result', hresult', hverdict, _⟩ := conclude_result
  cases hresult.symm.trans (hconclusion.trans hresult')
  rcases outcome with failure | _
  · rw [hverdict] at hjust
    rcases hconcluded.just_of_error.mp hjust _ blamed_refused with htool | htransient
    · exact htool
    · exact absurd htransient (by decide)
  · have hanalyzed : Analyzed _ _ ended part := hconcluded.outcome
    exact hanalyzed.unrefused _ (hconcluded.cleanup.toTail.refused_iff.mp blamed_refused)

theorem passing_just : ∃ final result, passing.1.2.Persisted final ∧
    final.result = some result ∧ (Just Sample.ext Sample.deployment.runner passing.1.2
      final.evidence result.verdict ↔ ∀ error, passing.1.2.Refused error →
        error.ByTool ∨ error.isTransientMutationFailure = true) :=
  just_iff (Sample.executes_rehearsed rfl passing.2).1 (Sample.uninterrupted_rehearsed rfl).sticky

end PackageHarness
