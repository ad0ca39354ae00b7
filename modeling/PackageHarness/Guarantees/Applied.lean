/-
# PackageHarness.Guarantees.Applied — what the comparison may rely on.

A capture is compared if the package reports the version and the install origin that its preview
resolved. The check lets a package pass that reports no version at all, so a mutation that did not
apply can be compared as a success exactly where the details leave the version out.
-/
import PackageHarness.Guarantees.Failed

namespace PackageHarness

open Interaction Routine Conduct

/-- The package reports what the preview of its installation resolved. -/
structure Applied (capture : CaptureEvidence) : Prop where
  version : ∀ expected, capture.preview.bind PreviewSummary.semanticVersion = some expected →
    Runner.reportedVersion (some capture) = some expected
  origin : ∃ details, capture.details = some details ∧
    (capture.preview.bind (·.resolvedRef)).bind ipfsCid = details.origin.bind ipfsCid

/-- The preview resolves to a semantic version, but the package reports none. -/
def Unversioned (capture : CaptureEvidence) : Prop :=
  (capture.preview.bind PreviewSummary.semanticVersion).isSome ∧
    Runner.reportedVersion (some capture) = none

def RunEvidence.Captures (evidence : RunEvidence) (capture : CaptureEvidence) : Prop :=
  evidence.baseline = some capture ∨ evidence.candidate = some capture

/-- No mutation that did not apply was compared, or led to another verdict than that of a broken
infrastructure. -/
structure ComparesApplied (evidence : RunEvidence) (verdict : Verdict) : Prop where
  compared : evidence.comparison.isSome →
    (∃ baseline, evidence.baseline = some baseline ∧ Applied baseline) ∧
      ∃ candidate, evidence.candidate = some candidate ∧ Applied candidate
  otherwise : ∀ capture, evidence.Captures capture → ¬ Applied capture →
    verdict = .infrastructureError

/-- The algorithm ended before the comparison, on an answer that blames the infrastructure. -/
def EndedOnInfrastructure (ext : Externals) (config : RunnerConfig) (t : Trace)
    (evidence : RunEvidence) : Prop :=
  evidence.comparison = none ∧ ∃ failure ended last answer earlier,
    AlgorithmEnds ext config t (.error failure) ended (⟨last, answer⟩ :: earlier) ∧
      exitVerdict last answer = .infrastructureError

variable {ext : Externals} {config : RunnerConfig} {runId : RunId} {record : RunRecord} {t : Trace}
  {capture : CaptureEvidence}

/-- For a package that reports its version, the check is what it should be. -/
theorem Fits.applied (h : Fits capture) (hdetails : capture.details.isSome)
    (hversioned : ¬ Unversioned capture) : Applied capture := by
  constructor
  · intro expected hexpected
    cases hreported : Runner.reportedVersion (some capture) with
    | none => exact absurd ⟨by simp [hexpected], hreported⟩ hversioned
    | some reported => rw [h.version expected reported hexpected hreported]
  · obtain ⟨details, hdetails⟩ := Option.isSome_iff_exists.mp hdetails
    exact ⟨details, hdetails, by simpa [sameInstallOrigin] using h.origin details hdetails⟩

theorem Unversioned.not_applied (h : Unversioned capture) : ¬ Applied capture := by
  intro happlied
  obtain ⟨expected, hexpected⟩ := Option.isSome_iff_exists.mp h.1
  have hreported := happlied.version expected hexpected
  rw [h.2] at hreported
  cases hreported

/-! ## Over whole executions -/

section

variable {request : RunRequest} {ended : Execution} {part : Trace} {cleaned final : RunRecord}
  {result : Except Failure Unit}

/-- Every capture that is kept holds details. -/
theorem Conduct.Concluded.detailed
    (h : Concluded ext config request result ended part cleaned final t)
    (hcapture : final.evidence.Captures capture) : capture.details.isSome := by
  have hgrounds := Early.grounds_or h.outcome
  rcases hcapture with hbaseline | hcandidate
  · rw [h.evidence, h.cleanup.baseline] at hbaseline
    obtain ⟨_, details, _, hdetails, _⟩ := hgrounds.baseline capture hbaseline
    simp [hdetails]
  · rw [h.evidence, h.cleanup.candidate] at hcandidate
    obtain ⟨_, details, _, hdetails, _⟩ := hgrounds.candidate capture hcandidate
    simp [hdetails]

/-- What is compared has been captured on both sides. -/
theorem Conduct.Concluded.sides
    (h : Concluded ext config request result ended part cleaned final t)
    (hcompared : final.evidence.comparison.isSome) :
    (∃ baseline, final.evidence.baseline = some baseline) ∧
      ∃ candidate, final.evidence.candidate = some candidate := by
  rw [h.evidence, h.cleanup.comparison] at hcompared
  obtain ⟨hbaseline, hcandidate⟩ := (Early.grounds_or h.outcome).sides hcompared
  rw [h.evidence, h.cleanup.baseline, h.cleanup.candidate]
  exact ⟨Option.isSome_iff_exists.mp hbaseline, Option.isSome_iff_exists.mp hcandidate⟩

theorem RunEvidence.Checked.fits {evidence : RunEvidence} (h : evidence.Checked)
    (hcapture : evidence.Captures capture) : Fits capture :=
  hcapture.elim (h.1 capture) (h.2 capture)

/-- Where every capture that is kept has been checked, the versions decide. -/
theorem Conduct.Concluded.compares_of_checked
    (h : Concluded ext config request result ended part cleaned final t)
    (hchecked : final.evidence.Checked) {verdict : Verdict}
    (hversioned : ∀ capture, final.evidence.Captures capture → Unversioned capture →
      final.evidence.comparison = none ∧ verdict = .infrastructureError) :
    ComparesApplied final.evidence verdict := by
  have happlied : ∀ capture, final.evidence.Captures capture → ¬ Unversioned capture →
      Applied capture := fun capture hcapture hversion =>
    (hchecked.fits hcapture).applied (h.detailed hcapture) hversion
  constructor
  · intro hcompared
    have hall : ∀ capture, final.evidence.Captures capture → Applied capture := by
      intro capture hcapture
      refine happlied capture hcapture fun hunversioned => ?_
      rw [(hversioned capture hcapture hunversioned).1] at hcompared
      cases hcompared
    obtain ⟨⟨baseline, hbaseline⟩, candidate, hcandidate⟩ := h.sides hcompared
    exact ⟨⟨baseline, hbaseline, hall baseline (Or.inl hbaseline)⟩, candidate, hcandidate,
      hall candidate (Or.inr hcandidate)⟩
  · intro capture hcapture hunapplied
    by_cases hunversioned : Unversioned capture
    · exact (hversioned capture hcapture hunversioned).2
    · exact absurd (happlied capture hcapture hunversioned) hunapplied

/-- A capture without a version was not compared, and the run blames the infrastructure. -/
theorem ComparesApplied.unversioned {evidence : RunEvidence} {verdict : Verdict}
    (h : ComparesApplied evidence verdict) (hcapture : evidence.Captures capture)
    (hunversioned : Unversioned capture) :
    evidence.comparison = none ∧ verdict = .infrastructureError := by
  refine ⟨?_, h.otherwise capture hcapture hunversioned.not_applied⟩
  by_contra hcompared
  obtain ⟨⟨baseline, hbaseline, happlied⟩, candidate, hcandidate, happlied'⟩ :=
    h.compared (Option.isSome_iff_ne_none.mpr hcompared)
  rcases hcapture with hcapture | hcapture
  · cases hbaseline.symm.trans hcapture
    exact hunversioned.not_applied happlied
  · cases hcandidate.symm.trans hcapture
    exact hunversioned.not_applied happlied'

theorem Conduct.Concluded.checked_of_ok
    (h : Concluded ext config request (.ok ()) ended part cleaned final t) :
    final.evidence.Checked ∧ final.evidence.comparison ≠ none := by
  have hanalyzed : Analyzed config request ended part := h.outcome
  obtain ⟨_, _, _, _, hcomparison⟩ := hanalyzed.compared
  refine ⟨h.reached_end.2, ?_⟩
  rw [h.evidence, h.cleanup.comparison, hcomparison]
  simp

theorem Conduct.Concluded.compares_iff
    (h : Concluded ext config request result ended part cleaned final t) :
    ComparesApplied final.evidence (overlaid (failureOf result) cleaned).1 ↔
      ∀ capture, final.evidence.Captures capture → Unversioned capture →
        EndedOnInfrastructure ext config t final.evidence := by
  rcases result with failure | _
  · have hearly : Early config request failure ended part := h.outcome
    obtain ⟨last, answer, earlier, rfl, hverdict, hexit, _⟩ := h.exit
    constructor
    · intro hcompares capture hcapture hunversioned
      obtain ⟨huncompared, hblamed⟩ := hcompares.unversioned hcapture hunversioned
      exact ⟨huncompared, failure, ended, last, answer, earlier, h.algorithm,
        hverdict.symm.trans hblamed⟩
    · intro hversioned
      have hevidence : final.evidence.Checked ∨ final.evidence.comparison = none ∧
          (overlaid (some failure) cleaned).1 = .infrastructureError := by
        rw [h.evidence, hverdict, ← hexit, h.cleanup.comparison]
        unfold RunEvidence.Checked
        rw [h.cleanup.baseline, h.cleanup.candidate]
        exact hearly.fits
      rcases hevidence with hchecked | ⟨huncompared, hblamed⟩
      · refine h.compares_of_checked hchecked fun capture hcapture hunversioned => ?_
        obtain ⟨huncompared, failure', ended', last', answer', earlier', hends, hexit'⟩ :=
          hversioned capture hcapture hunversioned
        cases (h.algorithm.unique hends).2.2
        exact ⟨huncompared, hverdict.trans hexit'⟩
      · exact ⟨fun hcompared => by simp [huncompared] at hcompared, fun _ _ _ => hblamed⟩
  · obtain ⟨hchecked, hcompared⟩ := h.checked_of_ok
    constructor
    · intro hcompares capture hcapture hunversioned
      exact absurd (hcompares.unversioned hcapture hunversioned).1 hcompared
    · intro hversioned
      refine h.compares_of_checked hchecked fun capture hcapture hunversioned => ?_
      exact absurd (hversioned capture hcapture hunversioned).1 hcompared

end

/-- No mutation that did not apply is compared as a success, exactly if every capture whose preview
resolves to a semantic version reports one, up to runs that break down on their infrastructure
before the comparison. -/
theorem compares_applied_iff (h : Executes ext config runId record (.ok ()) t) :
    ∃ final result, t.Persisted final ∧ final.result = some result ∧
      (ComparesApplied final.evidence result.verdict ↔
        ∀ capture, final.evidence.Captures capture → Unversioned capture →
          EndedOnInfrastructure ext config t final.evidence) := by
  obtain ⟨outcome, ended, part, cleaned, final, hconcluded⟩ := executes_concluded h
  obtain ⟨finished, hconclusion⟩ := hconcluded.conclusion
  obtain ⟨result, hresult, hverdict, _⟩ := conclude_result
  refine ⟨final, result, hconcluded.persisted, hconclusion.trans hresult, ?_⟩
  rw [hverdict]
  exact hconcluded.compares_iff

/-! ## A package that reports no version -/

/-- Both previews resolve to a version, and the package reports none after either mutation. -/
def silent : Showing fun c => Sample.concludes c fun final =>
    (final.result.any fun result => result.verdict = .passed) &&
      final.evidence.comparison.isSome && final.evidence.baseline.any fun capture =>
        (capture.preview.bind PreviewSummary.semanticVersion).isSome &&
          (Runner.reportedVersion (some capture)).isNone :=
  ⟨Sample.rehearse (Sample.answers (Sample.cooperates (some "0.2.0") none (.ok ()))),
    by decide +kernel⟩

/-- A run that passes although neither side reports the version that its preview resolved. -/
theorem silent_package_passes :
    ∃ t final result,
      Executes Sample.ext Sample.deployment.runner Sample.run Sample.job (.ok ()) t ∧
      t.Persisted final ∧ final.result = some result ∧ result.verdict = .passed ∧
      ¬ ComparesApplied final.evidence result.verdict := by
  obtain ⟨hexecutes, final, hpersisted, htest⟩ := Sample.executes_rehearsed rfl silent.2
  simp only [Bool.and_eq_true] at htest
  obtain ⟨⟨hpassed, hcompared⟩, hcaptured⟩ := htest
  obtain ⟨result, hresult, hverdict⟩ := Option.any_eq_true _ _ |>.mp hpassed
  obtain ⟨baseline, hbaseline, hunversioned⟩ := Option.any_eq_true _ _ |>.mp hcaptured
  refine ⟨silent.1.2, final, result, hexecutes, hpersisted, hresult, by simpa using hverdict,
    fun hcompares => ?_⟩
  have hsilent : Unversioned baseline := by simpa [Unversioned] using hunversioned
  rw [(hcompares.unversioned (Or.inl hbaseline) hsilent).1] at hcompared
  cases hcompared

theorem passing_compares_applied : ∃ final result, passing.1.2.Persisted final ∧
    final.result = some result ∧ (ComparesApplied final.evidence result.verdict ↔
      ∀ capture, final.evidence.Captures capture → Unversioned capture →
        EndedOnInfrastructure Sample.ext Sample.deployment.runner passing.1.2 final.evidence) :=
  compares_applied_iff (Sample.executes_rehearsed rfl passing.2).1

end PackageHarness
