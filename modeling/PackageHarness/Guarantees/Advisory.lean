/-
# PackageHarness.Guarantees.Advisory — the log analysis is advice.

Two executions of one record, in surroundings that behave identically but for the analyzer, make the
same calls and clean up alike. Their verdicts and reasons are the same as well, unless the algorithm
reached its end with both hard checks passed; then the advice decides between a pass and a warning.
-/
import PackageHarness.Conduct.Advice
import PackageHarness.Guarantees.Passed

namespace PackageHarness

open Interaction Routine Conduct

/-! ## What is compared -/

/-- The request goes to the package manager. -/
def RunnerRequest.isForManager : RunnerRequest → Bool
  | pm _ | listPackagesWithin _ => true
  | _ => false

/-- The calls to the package manager, the latest first. -/
def Trace.calls (t : Trace) : List RunnerRequest :=
  (t.map (·.request)).filter RunnerRequest.isForManager

/-- What the reconciliation of the target came to. -/
def Trace.cleanups (t : Trace) : List CleanupResult :=
  t.filterMap fun x => match x.request with
    | .save .cleanup record => some record.cleanup
    | _ => none

/-- The algorithm has not failed, and both hard checks have passed. -/
structure Advisable (ext : Externals) (config : RunnerConfig) (t : Trace) (evidence : RunEvidence) :
    Prop where
  ended : ∃ ended part, AlgorithmEnds ext config t (.ok ()) ended part
  baseline : Stabilized evidence.baseline
  candidate : Stabilized evidence.candidate

theorem calls_of_alike {t t' : Trace} (h : advisory.Alike t t') : t'.calls = t.calls := by
  induction h with
  | nil => rfl
  | cons hlike _ ih =>
      have hlike : AlikeUpToAdvice _ _ := hlike
      unfold Trace.calls at ih ⊢
      cases hlike with
      | same => simp only [List.map_cons, List.filter_cons, ih]
      | save => simp [RunnerRequest.isForManager, ih]
      | analyze => simp [RunnerRequest.isForManager, ih]

theorem cleanups_of_alike {t t' : Trace} (h : advisory.Alike t t') : t'.cleanups = t.cleanups := by
  induction h with
  | nil => rfl
  | cons hlike _ ih =>
      have hlike : AlikeUpToAdvice _ _ := hlike
      unfold Trace.cleanups at ih ⊢
      cases hlike with
      | same => simp only [List.filterMap_cons, ih]
      | save site => cases site <;> simp [ih, RunRecord.advise]
      | analyze => simp [ih]

/-! ## The table of hard checks -/

section

variable {baseline candidate : CaptureEvidence} {analysis analysis' : LogAnalysisResult}

/-- Where a hard check has failed, the advice is not listened to. -/
theorem deterministicVerdict_of_unstable
    (h : ¬ (baseline.stabilization.passed = true ∧ candidate.stabilization.passed = true)) :
    Runner.deterministicVerdict (Runner.compare baseline candidate) analysis' =
        Runner.deterministicVerdict (Runner.compare baseline candidate) analysis ∧
      (Runner.deterministicVerdict (Runner.compare baseline candidate) analysis).1 ≠ .passed := by
  unfold Runner.deterministicVerdict Runner.compare
  cases hbaseline : baseline.stabilization.passed <;>
    cases hcandidate : candidate.stabilization.passed <;> simp_all

theorem deterministicVerdict_of_stable (hbaseline : baseline.stabilization.passed = true)
    (hcandidate : candidate.stabilization.passed = true) :
    (Runner.deterministicVerdict (Runner.compare baseline candidate) analysis).1 = .passed ∨
      (Runner.deterministicVerdict (Runner.compare baseline candidate) analysis).1 = .warning := by
  unfold Runner.deterministicVerdict Runner.compare
  simp only [hbaseline, hcandidate]
  split
  · exact Or.inr rfl
  · exact Or.inl rfl

end

/-! ## Two executions -/

section

variable {ext : Externals} {config : RunnerConfig} {request : RunRequest} {ended ended' : Execution}
  {part part' t t' : Trace} {cleaned cleaned' final final' : RunRecord}

/-- A run that passes has cleaned up and has not bypassed a signature. -/
theorem Conduct.Concluded.clean_of_passed {result : Except Failure Unit}
    (h : Concluded ext config request result ended part cleaned final t)
    (hpassed : (overlaid (failureOf result) cleaned).1 = .passed) :
    final.cleanup.status = .passed ∧ ¬ t.Mentions RunnerRequest.bypasses := by
  rcases result with failure | _
  · exact absurd hpassed h.passed_of_error
  · have hflawless := h.passed_of_ok.mp hpassed
    obtain ⟨saved, hsaved, hstatus⟩ := hflawless.cleanup
    rw [h.settled, ← h.cleanup.reported saved hsaved]
    exact ⟨hstatus, hflawless.signature⟩

/-- What the two executions have captured, and how each decides on it. -/
theorem Conduct.Concluded.decided_twice
    (h : Concluded ext config request (.ok ()) ended part cleaned final t)
    (h' : Concluded ext config request (.ok ()) ended' part' cleaned' final' t')
    (hadvised : ∃ analysis result, final' = final.advise analysis result) :
    ∃ baseline candidate analysis analysis', final.evidence.baseline = some baseline ∧
      final.evidence.candidate = some candidate ∧
      decided none cleaned =
        Runner.deterministicVerdict (Runner.compare baseline candidate) analysis ∧
      decided none cleaned' =
        Runner.deterministicVerdict (Runner.compare baseline candidate) analysis' := by
  have hanalyzed : Analyzed config request ended part := h.outcome
  have hanalyzed' : Analyzed config request ended' part' := h'.outcome
  obtain ⟨old, new, analysis, hold, hnew, _, hdecided⟩ := hanalyzed.decided h.cleanup.toKeeps
  obtain ⟨old', new', analysis', hold', hnew', _, hdecided'⟩ :=
    hanalyzed'.decided h'.cleanup.toKeeps
  obtain ⟨advice, result, rfl⟩ := hadvised
  rw [← h.evidence] at hold hnew
  rw [← h'.evidence] at hold' hnew'
  cases hold.symm.trans hold'
  cases hnew.symm.trans hnew'
  exact ⟨old, new, analysis, analysis', hold, hnew, hdecided, hdecided'⟩

/-- Unless both hard checks have passed behind the end of the algorithm, verdict and reason do not
depend on the advice. -/
theorem Conduct.Concluded.same_of_not_advisable {result : Except Failure Unit}
    (h : Concluded ext config request result ended part cleaned final t)
    (h' : Concluded ext config request result ended' part' cleaned' final' t')
    (hadvised : ∃ analysis result, final' = final.advise analysis result)
    (hnot : ¬ Advisable ext config t final.evidence) :
    (overlaid (failureOf result) cleaned').1 = (overlaid (failureOf result) cleaned).1 ∧
      (overlaid (failureOf result) cleaned').2.1 = (overlaid (failureOf result) cleaned).2.1 := by
  have hdecided : decided (failureOf result) cleaned' = decided (failureOf result) cleaned ∧
      (decided (failureOf result) cleaned).1 ≠ .passed := by
    rcases result with failure | _
    · refine ⟨rfl, ?_⟩
      obtain ⟨last, answer, _, _, _, hexit, _⟩ := h.exit
      show failure.verdict ≠ .passed
      rw [hexit]
      exact exitVerdict_ne_passed last answer
    · obtain ⟨baseline, candidate, analysis, analysis', hbaseline, hcandidate, hfirst, hsecond⟩ :=
        h.decided_twice h' hadvised
      have hunstable : ¬ (baseline.stabilization.passed = true ∧
          candidate.stabilization.passed = true) := fun hstable =>
        hnot ⟨⟨ended, part, h.algorithm⟩, ⟨baseline, hbaseline, hstable.1⟩,
          ⟨candidate, hcandidate, hstable.2⟩⟩
      show decided none cleaned' = decided none cleaned ∧ _
      rw [hsecond]
      show _ ∧ (decided none cleaned).1 ≠ .passed
      rw [hfirst]
      exact deterministicVerdict_of_unstable hunstable
  obtain ⟨hsame, hunpassed⟩ := hdecided
  have hunpassed' : (decided (failureOf result) cleaned').1 ≠ .passed := by
    rw [hsame]
    exact hunpassed
  have hfirst := overlaid_of_not_passed hunpassed
  have hsecond := overlaid_of_not_passed hunpassed'
  rw [hfirst.1, hfirst.2, hsecond.1, hsecond.2, hsame]
  exact ⟨rfl, rfl⟩

/-- Otherwise a run passes or is warned about. -/
theorem Conduct.Concluded.passed_or_warned {result : Except Failure Unit}
    (h : Concluded ext config request result ended part cleaned final t)
    (hadvisable : Advisable ext config t final.evidence) :
    (overlaid (failureOf result) cleaned).1 = .passed ∨
      (overlaid (failureOf result) cleaned).1 = .warning := by
  obtain ⟨ended₁, part₁, hends⟩ := hadvisable.ended
  cases (h.algorithm.unique hends).1
  obtain ⟨baseline, candidate, analysis, _, hbaseline, hcandidate, hdecided, _⟩ :=
    h.decided_twice h ⟨final.evidence.logAnalysis, final.result, rfl⟩
  obtain ⟨old, hold, hstable⟩ := hadvisable.baseline
  obtain ⟨new, hnew, hstable'⟩ := hadvisable.candidate
  cases hbaseline.symm.trans hold
  cases hcandidate.symm.trans hnew
  show (overlaid none cleaned).1 = .passed ∨ (overlaid none cleaned).1 = .warning
  have htable : (decided none cleaned).1 = .passed ∨ (decided none cleaned).1 = .warning := by
    rw [hdecided]
    exact deterministicVerdict_of_stable hstable hstable'
  rcases htable with hpassed | hwarning
  · exact overlaid_of_passed hpassed
  · rw [(overlaid_of_not_passed (by simp [hwarning])).1]
    exact Or.inr hwarning

/-- The other execution is open to advice as well. -/
theorem Advisable.other {result : Except Failure Unit} (hadvisable : Advisable ext config t
      final.evidence)
    (h : Concluded ext config request result ended part cleaned final t)
    (h' : Concluded ext config request result ended' part' cleaned' final' t')
    (hadvised : ∃ analysis result, final' = final.advise analysis result) :
    Advisable ext config t' final'.evidence := by
  obtain ⟨ended₁, part₁, hends⟩ := hadvisable.ended
  cases (h.algorithm.unique hends).1
  obtain ⟨advice, result, rfl⟩ := hadvised
  exact ⟨⟨ended', part', h'.algorithm⟩, hadvisable.baseline, hadvisable.candidate⟩

end

/-- What the results of two executions have in common that differ in the advice. -/
structure AlikeResults (ext : Externals) (config : RunnerConfig) (t t' : Trace)
    (evidence : RunEvidence) (result result' : HarnessResult) : Prop where
  cleanup : result'.cleanup = result.cleanup
  same : ¬ Advisable ext config t evidence →
    result'.verdict = result.verdict ∧ result'.reasonCode = result.reasonCode
  advised : Advisable ext config t evidence → ∀ verdict ∈ [result.verdict, result'.verdict],
    verdict = .passed ∨ verdict = .warning
  clean : result.verdict = .passed →
    result.cleanup.status = .passed ∧ ¬ t.Mentions RunnerRequest.bypasses
  clean' : result'.verdict = .passed →
    result'.cleanup.status = .passed ∧ ¬ t'.Mentions RunnerRequest.bypasses

section

variable {ext : Externals} {config : RunnerConfig} {runId : RunId} {record : RunRecord}
  {outcome outcome' : Except ControllerError Unit} {t t' : Trace}

theorem alike_results (h : Executes ext config runId record (.ok ()) t)
    (h' : Executes ext config runId record (.ok ()) t') (hagree : advisory.Agree t t') :
    ∃ final final' result result', t.Persisted final ∧ final.result = some result ∧
      t'.Persisted final' ∧ final'.result = some result' ∧
      AlikeResults ext config t t' final.evidence result result' := by
  obtain ⟨way, ended, part, cleaned, final, hfirst⟩ := executes_concluded h
  obtain ⟨way', ended', part', cleaned', final', hsecond⟩ := executes_concluded h'
  obtain ⟨hway, _⟩ := algorithmEnds_alike h h' hagree hfirst.algorithm hsecond.algorithm
  subst hway
  have hadvised : ∃ analysis result, final' = final.advise analysis result :=
    persisted_alike (executes_alike h h' hagree).2 hfirst.persisted hsecond.persisted
  obtain ⟨finished, hconclusion⟩ := hfirst.conclusion
  obtain ⟨finished', hconclusion'⟩ := hsecond.conclusion
  obtain ⟨result, hresult, hverdict, hreason, _, hcleanup⟩ := conclude_result
  obtain ⟨result', hresult', hverdict', hreason', _, hcleanup'⟩ := conclude_result
  refine ⟨final, final', result, result', hfirst.persisted, hconclusion.trans hresult,
    hsecond.persisted, hconclusion'.trans hresult', ?_, fun hnot => ?_, fun hadvisable => ?_,
    fun hpassed => ?_, fun hpassed => ?_⟩
  · rw [hcleanup, hcleanup', ← hfirst.settled, ← hsecond.settled]
    obtain ⟨advice, advised, rfl⟩ := hadvised
    rfl
  · rw [hverdict, hverdict', hreason, hreason']
    exact hfirst.same_of_not_advisable hsecond hadvised hnot
  · simp only [List.mem_cons, List.not_mem_nil, or_false, forall_eq_or_imp, forall_eq]
    rw [hverdict, hverdict']
    exact ⟨hfirst.passed_or_warned hadvisable,
      hsecond.passed_or_warned (hadvisable.other hfirst hsecond hadvised)⟩
  · rw [hcleanup, ← hfirst.settled]
    exact hfirst.clean_of_passed (hverdict ▸ hpassed)
  · rw [hcleanup', ← hsecond.settled]
    exact hsecond.clean_of_passed (hverdict' ▸ hpassed)

/-- Whatever the analyzer answers, an execution makes the same calls, cleans up alike and returns
alike; and its result differs at most in whether an advisable run passes or is warned about. -/
theorem analysis_is_advisory (h : Executes ext config runId record outcome t)
    (h' : Executes ext config runId record outcome' t') (hagree : advisory.Agree t t') :
    outcome' = outcome ∧ t'.calls = t.calls ∧ t'.cleanups = t.cleanups ∧
      (outcome = .ok () → ∃ final final' result result', t.Persisted final ∧
        final.result = some result ∧ t'.Persisted final' ∧ final'.result = some result' ∧
        AlikeResults ext config t t' final.evidence result result') := by
  obtain ⟨hreturned, halike⟩ := executes_alike h h' hagree
  refine ⟨hreturned, calls_of_alike halike, cleanups_of_alike halike, ?_⟩
  rintro rfl
  subst hreturned
  exact alike_results h h' hagree

end

/-! ## Two rehearsals -/

/-- Surroundings that answer each request always alike, the analyzer apart, agree. -/
theorem rehearsed_agree {reply reply' : (request : RunnerRequest) → request.Answer}
    (hsame : ∀ asked, (∀ input, asked ≠ .analyze input) → reply' asked = reply asked)
    (hsave : ∀ site record, reply (.save site record) = .ok ()) :
    advisory.Agree (Sample.rehearse reply).2 (Sample.rehearse reply').2 := by
  intro x x' earlier earlier' hx hx' _ hasks
  have hreply := Sample.mem_rehearsed (hx.subset (List.mem_cons_self ..))
  have hreply' := Sample.mem_rehearsed (hx'.subset (List.mem_cons_self ..))
  obtain ⟨asked, answer⟩ := x
  obtain ⟨asked', answer'⟩ := x'
  rw [hreply, hreply']
  clear hreply hreply' hx hx'
  have hasks : Corresponds asked asked' := hasks
  show AlikeUpToAdvice ⟨asked, reply asked⟩ ⟨asked', reply' asked'⟩
  cases hasks with
  | save site record analysis result =>
      rw [hsame _ (by simp), hsave, hsave]
      exact .save site record analysis result (.ok ())
  | same =>
      cases asked with
      | analyze input => exact .analyze input _ _
      | _ =>
          rw [hsame _ (by simp)]
          exact .same _

/-- The surroundings of `passing`, but the analyzer raises the alarm. -/
def alarmedReply : (request : RunnerRequest) → request.Answer
  | .analyze _ => .ok ⟨.heuristic, .critical, "", ⟨.clean, ""⟩, ⟨.critical, ""⟩, [], [], []⟩
  | asked => Sample.answers (Sample.cooperates none none (.ok ())) asked

def alarmed : Showing fun c => Sample.concludes c fun final =>
    final.result.any fun result => result.verdict = .warning :=
  ⟨Sample.rehearse alarmedReply, by decide +kernel⟩

theorem alarmed_agrees : advisory.Agree passing.1.2 alarmed.1.2 := by
  refine rehearsed_agree ?_ fun _ _ => rfl
  intro asked hasked
  cases asked with
  | analyze input => exact absurd rfl (hasked input)
  | _ => rfl

theorem alarmed_calls : alarmed.1.2.calls = passing.1.2.calls ∧
    alarmed.1.2.cleanups = passing.1.2.cleanups := by
  obtain ⟨hpassing, _⟩ := Sample.executes_rehearsed rfl passing.2
  obtain ⟨halarmed, _⟩ := Sample.executes_rehearsed rfl alarmed.2
  obtain ⟨_, hcalls, hcleanups, _⟩ := analysis_is_advisory hpassing halarmed alarmed_agrees
  exact ⟨hcalls, hcleanups⟩

end PackageHarness
