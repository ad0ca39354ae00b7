/-
# PackageHarness.Conduct.Advice — two executions that differ in what the analyzer answers.

The answer of the analyzer goes into the evidence and from there into the result, and nowhere else:
two records that went through the same code with different advice differ in these two places only.
So the two executions ask for the same things, whatever the advice.
-/
import PackageHarness.Conduct.Execution
import PackageHarness.Interaction.Coupling

namespace PackageHarness

open Interaction Routine

/-! ## Records up to advice -/

/-- The record with other advice and what other advice may lead to. -/
def RunRecord.advise (record : RunRecord) (analysis : Option LogAnalysisResult)
    (result : Option HarnessResult) : RunRecord :=
  { record with evidence := { record.evidence with logAnalysis := analysis }, result := result }

/-- Requests that correspond in two executions with different advice. -/
inductive Corresponds : RunnerRequest → RunnerRequest → Prop
  | same (asked : RunnerRequest) : Corresponds asked asked
  | save (site : SaveSite) (record : RunRecord) (analysis : Option LogAnalysisResult)
      (result : Option HarnessResult) :
      Corresponds (.save site record) (.save site (record.advise analysis result))

/-- Exchanges that are alike up to advice: the surroundings give the same answer, and the analyzer
may give any. -/
inductive AlikeUpToAdvice : Exchange RunnerRequest RunnerRequest.Answer →
    Exchange RunnerRequest RunnerRequest.Answer → Prop
  | same (x : Exchange RunnerRequest RunnerRequest.Answer) : AlikeUpToAdvice x x
  | save (site : SaveSite) (record : RunRecord) (analysis : Option LogAnalysisResult)
      (result : Option HarnessResult) (answer : Except StoreError Unit) :
      AlikeUpToAdvice ⟨.save site record, answer⟩
        ⟨.save site (record.advise analysis result), answer⟩
  | analyze (input : LogAnalysisInput) (answer answer' : Except AnalyzerError LogAnalysisResult) :
      AlikeUpToAdvice ⟨.analyze input, answer⟩ ⟨.analyze input, answer'⟩

def advisory : Likeness RunnerRequest RunnerRequest.Answer where
  asks := Corresponds
  like := AlikeUpToAdvice

theorem AlikeUpToAdvice.of_save {site site' : SaveSite} {record record' : RunRecord}
    {answer answer' : Except StoreError Unit}
    (h : AlikeUpToAdvice ⟨.save site record, answer⟩ ⟨.save site' record', answer'⟩) :
    answer' = answer := by
  cases h <;> rfl

theorem advisory_plain {asked : RunnerRequest} (h : ∀ input, asked ≠ .analyze input) :
    advisory.Plain asked := by
  refine ⟨.same asked, fun answer answer' hlike => ?_⟩
  have hlike : AlikeUpToAdvice ⟨asked, answer⟩ ⟨asked, answer'⟩ := hlike
  cases asked with
  | analyze input => exact absurd rfl (h input)
  | save site record => exact hlike.of_save.symm
  | _ => cases hlike; rfl

namespace Conduct

open Runner

/-! ## Code that only carries the advice along -/

/-- The second run's state is the first one's, with other advice. -/
def Advised (s : Execution) (_ : Trace) (s' : Execution) (_ : Trace) : Prop :=
  ∃ analysis result, s' = Execution.modify (fun record => record.advise analysis result) s

theorem Advised.refl {s : Execution} {t t' : Trace} : Advised s t s t' :=
  ⟨s.record.evidence.logAnalysis, s.record.result, rfl⟩

/-- Both runs have left early with the same error. -/
def Stopped {ε : Type} (e : ε) (s : Execution) (t : Trace) (e' : ε) (s' : Execution) (t' : Trace) :
    Prop :=
  e' = e ∧ Advised s t s' t'

section

variable {u u' : Trace} {ext : Externals} {config : RunnerConfig}

theorem saveRecord_advised (hagree : advisory.Agree u u') (site : SaveSite) :
    Couples advisory u u' Advised (saveRecord site) (saveRecord site)
      (fun _ s t _ s' t' => Advised s t s' t') Stopped := by
  refine Couples.bind_read fun v v' => Couples.bind_ask hagree ?_ fun answer answer' hlike => ?_
  · rintro s t s' t' ⟨rfl, rfl, analysis, result, rfl⟩
    exact .save site _ analysis result
  · cases AlikeUpToAdvice.of_save hlike
    rcases answer with error | _
    · refine Couples.throw ?_
      rintro s t s' t' ⟨_, _, _, _, _, _, h⟩
      exact ⟨rfl, h⟩
    · refine Couples.pure ?_
      rintro s t s' t' ⟨_, _, _, _, _, _, h⟩
      exact h

/-- A request that has nothing to do with the advice. -/
theorem bind_ask_advised {ε β : Type} {F : ε → Execution → Trace → ε → Execution → Trace → Prop}
    {K : β → Execution → Trace → β → Execution → Trace → Prop} (hagree : advisory.Agree u u')
    {asked : RunnerRequest} (hasked : ∀ input, asked ≠ .analyze input)
    {f f' : asked.Answer → Routine RunnerRequest RunnerRequest.Answer Execution ε β}
    (hf : ∀ answer, Couples advisory u u' Advised (f answer) (f' answer) K F) :
    Couples advisory u u' Advised (Routine.run (ask asked) >>= f) (Routine.run (ask asked) >>= f')
      K F := by
  refine Couples.bind_ask hagree (fun _ _ _ _ _ => .same asked) fun answer answer' hlike => ?_
  cases (advisory_plain hasked).2 answer answer' hlike
  refine (hf answer).weaken ?_ (fun _ _ _ _ _ _ h => h) fun _ _ _ _ _ _ h => h
  rintro s t s' t' ⟨_, _, _, _, h⟩
  exact h

theorem phase_advised (hagree : advisory.Agree u u') (next : ExecutionPhase) :
    Couples advisory u u' Advised (phase next) (phase next)
      (fun _ s t _ s' t' => Advised s t s' t') Stopped := by
  refine bind_ask_advised hagree (by simp) fun time => ?_
  refine Couples.bind (Q := fun _ s t _ s' t' => Advised s t s' t') (Couples.update ?_)
    fun _ _ => ?_
  · rintro s t s' t' ⟨analysis, result, rfl⟩
    exact ⟨analysis, result, rfl⟩
  refine Couples.bind (saveRecord_advised hagree _) fun _ _ => ?_
  refine Couples.bind_read fun v v' => ?_
  rintro s t s' t' ⟨rfl, rfl, analysis, result, rfl⟩
  exact Coupled.request hagree (.same _) fun _ _ _ => Coupled.pure ⟨analysis, result, rfl⟩

/-! ## The algorithm -/

theorem presentEvidence_meets {side : String} {capture : Option CaptureEvidence} :
    Meets (conduct config False) (fun _ _ => True) (presentEvidence side capture)
      (fun _ _ _ => True) (fun _ _ _ => True) := by
  cases capture with
  | none => exact Meets.throw fun _ _ _ _ => trivial
  | some capture => exact Meets.pure fun _ _ _ _ => trivial

theorem plain_of_conducted (config : RunnerConfig) (t : Trace) (asked : RunnerRequest)
    (h : t.Conducted config False asked) : advisory.Plain asked := by
  refine advisory_plain fun input heq => ?_
  subst heq
  exact h

/-- The analysis, with advice of its own in each run. -/
theorem analyzeEvidence_advised (hagree : advisory.Agree u u') {request : RunRequest} :
    Couples advisory u u'
      (Twice (Stage config request True
        (Captured request.package.dnpName request.package.candidateRef)))
      (analyzeEvidence ext) (analyzeEvidence ext) (fun _ s t _ s' t' => Advised s t s' t')
      Stopped := by
  have hstopped : ∀ (e : Failure) s t, True → Stopped e s t e s t := fun _ _ _ _ => ⟨rfl, .refl⟩
  refine Couples.bind_same hagree ((phaseFailure_meets Captured.lasting .analysis).weaken
    (fun _ _ _ h => h) (fun _ _ _ _ _ => trivial) fun _ _ _ _ _ => trivial)
    (plain_of_conducted config) hstopped fun _ => ?_
  refine Couples.bind_read_same fun v => ?_
  refine Couples.bind_same hagree (presentEvidence_meets.weaken (fun _ _ _ _ => trivial)
    (fun _ _ _ _ _ => trivial) fun _ _ _ _ h => h) (plain_of_conducted config) hstopped
    fun baseline => ?_
  refine Couples.bind_same hagree (presentEvidence_meets.weaken (fun _ _ _ _ => trivial)
    (fun _ _ _ _ _ => trivial) fun _ _ _ _ h => h) (plain_of_conducted config) hstopped
    fun candidate => ?_
  refine Couples.bind (Q := fun _ s t _ s' t' => Advised s t s' t') (Couples.update ?_)
    fun _ _ => ?_
  · rintro s t _ _ ⟨rfl, rfl, _⟩
    exact .refl
  -- here the two runs part
  refine Couples.bind_ask hagree (fun _ _ _ _ _ => .same _) fun answer answer' _ => ?_
  refine Couples.bind (Q := fun _ s t _ s' t' => Advised s t s' t') (Couples.update ?_)
    fun _ _ => ?_
  · rintro s t s' t' ⟨_, _, _, _, analysis, result, rfl⟩
    exact ⟨_, result, rfl⟩
  · refine Couples.mapError ((saveRecord_advised hagree _).weaken (fun _ _ _ _ h => h)
      (fun _ _ _ _ _ _ h => h) ?_)
    rintro e s t e' s' t' ⟨rfl, h⟩
    exact ⟨rfl, h⟩

theorem runAlgorithm_advised (hagree : advisory.Agree u u') {request : RunRequest} :
    Couples advisory u u' (Twice (Untested request)) (runAlgorithm ext config)
      (runAlgorithm ext config) (fun _ s t _ s' t' => Advised s t s' t') Stopped := by
  have hearly : ∀ failure s t, Early config request failure s t → Stopped failure s t failure s t :=
    fun _ _ _ _ => ⟨rfl, .refl⟩
  refine Couples.bind_same hagree enter_meets (plain_of_conducted config) hearly fun _ => ?_
  refine Couples.bind_read_same fun v => ?_
  rintro s t _ _ ⟨rfl, rfl, rfl, hstage⟩
  have hpackage : v.record.request.resolve = request.resolve := by rw [hstage.1.requested]
  refine (?_ : Couples advisory u u' (Twice (Stage config request True Opened)) _ _ _ _) _ _ _ _
    ⟨rfl, rfl, hstage⟩
  refine Couples.bind_same hagree (preflight_meets hpackage) (plain_of_conducted config) hearly
    fun packages => ?_
  refine Couples.bind_same hagree recordInventory_meets (plain_of_conducted config) hearly
    fun _ => ?_
  refine Couples.bind_same hagree (runBaseline_meets hpackage) (plain_of_conducted config) hearly
    fun _ => ?_
  refine Couples.bind_same hagree (runCandidate_meets hpackage) (plain_of_conducted config) hearly
    fun _ => ?_
  exact analyzeEvidence_advised hagree

/-! ## The tail -/

theorem noteFailure_advised (result : Except Failure Unit) :
    Couples advisory u u' Advised (noteFailure result) (noteFailure result)
      (fun failure s t failure' s' t' =>
        (failure = failureOf result ∧ failure' = failureOf result) ∧ Advised s t s' t') Stopped := by
  rcases result with failure | _
  · refine Couples.bind (Q := fun _ s t _ s' t' => Advised s t s' t') (Couples.update ?_)
      fun _ _ => Couples.pure fun _ _ _ _ h => ⟨⟨rfl, rfl⟩, h⟩
    rintro s t s' t' ⟨analysis, result, rfl⟩
    exact ⟨analysis, result, rfl⟩
  · exact Couples.pure fun _ _ _ _ h => ⟨⟨rfl, rfl⟩, h⟩

theorem cleanUp_advised (hagree : advisory.Agree u u') :
    Couples advisory u u' Advised (cleanUp config) (cleanUp config)
      (fun _ s t _ s' t' => Advised s t s' t') Stopped := by
  refine Couples.bind_read fun v v' => ?_
  rintro s t s' t' ⟨rfl, rfl, analysis, result, rfl⟩
  refine (?_ : Couples advisory u u' Advised _ _ _ _) _ _ _ _ ⟨analysis, result, rfl⟩
  show Couples advisory u u' Advised (if v.cleanupAuthorized = true then _ else _)
    (if v.cleanupAuthorized = true then _ else _) _ _
  split
  · refine Couples.bind (phase_advised hagree _) fun _ _ => ?_
    refine Couples.bind_read fun w w' => ?_
    rintro s t s' t' ⟨rfl, rfl, analysis, result, rfl⟩
    refine (?_ : Couples advisory u u' Advised _ _ _ _) _ _ _ _ ⟨analysis, result, rfl⟩
    -- the plan, the target and the inventory are those of both records
    refine Couples.bind (Couples.run_same hagree reconcileTarget_within ?_ ?_)
      fun outcome outcome' => Couples.given fun hsame => Couples.given fun _ => ?_
    · intro asked hreconciles
      refine advisory_plain fun input heq => ?_
      subst heq
      exact hreconciles
    · exact fun _ _ _ _ _ h => h
    · subst hsame
      refine Couples.bind (Q := fun _ s t _ s' t' => Advised s t s' t') (Couples.update ?_)
        fun _ _ => saveRecord_advised hagree _
      rintro s t s' t' ⟨analysis, result, rfl⟩
      exact ⟨analysis, result, rfl⟩
  · refine Couples.update ?_
    rintro s t s' t' ⟨analysis, result, rfl⟩
    exact ⟨analysis, result, rfl⟩

theorem noteCleanupFailure_advise (record : RunRecord) (analysis : Option LogAnalysisResult)
    (result : Option HarnessResult) :
    noteCleanupFailure (record.advise analysis result) =
      (noteCleanupFailure record).advise analysis result := by
  have hfailed : cleanupFailed (record.advise analysis result) = cleanupFailed record := rfl
  unfold noteCleanupFailure
  rw [hfailed]
  split <;> rfl

theorem conclude_advise (failure : Option Failure) (finished : Timestamp) (record : RunRecord)
    (analysis : Option LogAnalysisResult) (result : Option HarnessResult) :
    ∃ result', conclude ext failure finished (record.advise analysis result) =
      (conclude ext failure finished record).advise analysis result' := by
  refine ⟨(conclude ext failure finished (record.advise analysis result)).result, ?_⟩
  rw [conclude_eq, noteCleanupFailure_advise]
  rfl

/-- The whole execution: the same outcome, and conversations that are alike. -/
theorem drive_advised (hagree : advisory.Agree u u') {record : RunRecord} {runId : RunId}
    (hfresh : record.Fresh) :
    Couples advisory u u' (Twice (Known record [⟨.get runId, .ok (some record)⟩]))
      (drive ext config) (drive ext config) (fun _ s t _ s' t' => Advised s t s' t') Stopped := by
  have hstopped : ∀ (e : ControllerError) s t, True → Stopped e s t e s t :=
    fun _ _ _ _ => ⟨rfl, .refl⟩
  refine Couples.bind_same hagree now_begins (plain_of_conducted config) hstopped
    fun started => ?_
  refine Couples.bind_same hagree start_begins (plain_of_conducted config) hstopped fun _ => ?_
  refine Couples.bind_same hagree save_begins (plain_of_conducted config) hstopped fun _ => ?_
  refine Couples.bind_read_same fun v => ?_
  refine Couples.bind_same hagree publish_begins (plain_of_conducted config) hstopped fun _ => ?_
  have halgorithm : Couples advisory u u' (Twice (Known (record.start started)
      (opening runId record started))) (runAlgorithm ext config) (runAlgorithm ext config)
      (fun _ s t _ s' t' => Advised s t s' t') Stopped := by
    rintro s t s' t' ⟨rfl, rfl, rfl, rfl⟩
    exact runAlgorithm_advised hagree _ _ _ _ ⟨rfl, rfl, opening_untested hfresh started⟩
  refine Couples.bind halgorithm.attempt fun outcome outcome' => ?_
  have hends : ∀ s t s' t', bothOutcomes (fun _ s t _ s' t' => Advised s t s' t') Stopped outcome s
      t outcome' s' t' → outcome' = outcome ∧ Advised s t s' t' := by
    intro s t s' t' h
    rcases outcome with failure | _ <;> rcases outcome' with failure' | _
    · exact ⟨congrArg Except.error h.1, h.2⟩
    · exact h.elim
    · exact h.elim
    · exact ⟨rfl, h⟩
  refine (Couples.given fun hsame => ?_).weaken hends (fun _ _ _ _ _ _ h => h)
    fun _ _ _ _ _ _ h => h
  subst hsame
  refine Couples.bind (noteFailure_advised _) fun failure failure' =>
    Couples.given fun hfailure => ?_
  obtain ⟨rfl, rfl⟩ := hfailure
  refine Couples.bind (cleanUp_advised hagree) fun _ _ => ?_
  refine bind_ask_advised hagree (by simp) fun finished => ?_
  refine Couples.bind (Q := fun _ s t _ s' t' => Advised s t s' t') (Couples.update ?_)
    fun _ _ => phase_advised hagree _
  rintro s t s' t' ⟨analysis, result, rfl⟩
  obtain ⟨result', hconclude⟩ := conclude_advise (failureOf outcome') finished s.record analysis
    result
  exact ⟨analysis, result', congrArg (fun record => { s with record := record }) hconclude⟩

end

/-! ## Two executions -/

section Executions

variable {ext : Externals} {config : RunnerConfig} {runId : RunId} {record : RunRecord}
  {outcome outcome' : Except ControllerError Unit} {t t' : Trace}

theorem alike_refl (t : Trace) : advisory.Alike t t := List.forall₂_same.mpr fun x _ => .same x

/-- Executions whose surroundings behave identically have alike conversations. -/
theorem executes_alike (h : Executes ext config runId record outcome t)
    (h' : Executes ext config runId record outcome' t') (hagree : advisory.Agree t t') :
    outcome' = outcome ∧ advisory.Alike t t' := by
  obtain ⟨s, hdrive⟩ := executes_driven h
  obtain ⟨s', hdrive'⟩ := executes_driven h'
  have hstart : Twice (Known record [⟨.get runId, .ok (some record)⟩]) { record := record } _
      { record := record } _ := ⟨rfl, rfl, rfl, rfl⟩
  obtain ⟨halike, hends⟩ := drive_advised hagree h.fresh _ _ _ _ hstart (alike_refl _) _ _ _ _
    hdrive hdrive' (List.suffix_refl _) (List.suffix_refl _)
  refine ⟨?_, halike⟩
  rcases outcome with error | _ <;> rcases outcome' with error' | _
  · exact congrArg Except.error hends.1
  · exact hends.elim
  · exact hends.elim
  · rfl

/-- The opening of an execution is that of its record. -/
theorem opening_found {runId' : RunId} {record' : RunRecord} {started : Timestamp}
    (hfound : [⟨.get runId, .ok (some record)⟩] <:+ t)
    (hopening : opening runId' record' started <:+ t) : runId' = runId ∧ record' = record := by
  have hlast : [⟨.get runId', .ok (some record')⟩] <:+ opening runId' record' started :=
    ⟨[_, _, _], rfl⟩
  have heq := (List.suffix_of_suffix_length_le (hlast.trans hopening) hfound (by simp)).eq_of_length
    (by simp)
  simp only [List.cons.injEq, Exchange.mk.injEq, RunnerRequest.get.injEq] at heq
  exact ⟨heq.1.1, by simpa using heq.1.2⟩

/-- The algorithms of such executions end alike. -/
theorem algorithmEnds_alike (h : Executes ext config runId record outcome t)
    (h' : Executes ext config runId record outcome' t') (hagree : advisory.Agree t t')
    {result result' : Except Failure Unit} {ended ended' : Execution} {part part' : Trace}
    (hends : AlgorithmEnds ext config t result ended part)
    (hends' : AlgorithmEnds ext config t' result' ended' part') :
    result' = result ∧ Advised ended part ended' part' := by
  obtain ⟨hwithin, runId₁, record₁, started, hrun⟩ := hends
  obtain ⟨hwithin', runId₂, record₂, started', hrun'⟩ := hends'
  have hopening := hrun.suffix.trans hwithin
  have hopening' := hrun'.suffix.trans hwithin'
  obtain ⟨rfl, rfl⟩ := opening_found h.found hopening
  obtain ⟨rfl, rfl⟩ := opening_found h'.found hopening'
  -- the clock of both executions says the same at the start
  have hstarted : started = started' := by
    have hnow : ∀ time, (⟨.now, time⟩ :: [⟨.get runId₂, .ok (some record₂)⟩] : Trace) <:+
        opening runId₂ record₂ time := fun time => ⟨[_, _], rfl⟩
    exact (advisory_plain (by simp)).2 _ _ (hagree ((hnow started).trans hopening)
      ((hnow started').trans hopening') (alike_refl _) (.same .now))
  subst hstarted
  have hstart : Untested record₂.request { record := record₂.start started }
      (opening runId₂ record₂ started) := opening_untested h.fresh started
  obtain ⟨_, hcoupled⟩ := runAlgorithm_advised hagree _ _ _ _ ⟨rfl, rfl, hstart⟩ (alike_refl _)
    _ _ _ _ hrun hrun' hwithin hwithin'
  rcases result with failure | _ <;> rcases result' with failure' | _
  · exact ⟨congrArg Except.error hcoupled.1, hcoupled.2⟩
  · exact hcoupled.elim
  · exact hcoupled.elim
  · exact ⟨rfl, hcoupled⟩

/-- What alike conversations have persisted differs in the advice. -/
theorem persisted_alike {final final' : RunRecord} (halike : advisory.Alike t t')
    (h : t.Persisted final) (h' : t'.Persisted final') :
    ∃ analysis result, final' = final.advise analysis result := by
  obtain ⟨published, earlier, rfl⟩ := h
  obtain ⟨published', earlier', rfl⟩ := h'
  cases halike with
  | cons _ halike =>
      cases halike with
      | cons hlike _ =>
          have hlike : AlikeUpToAdvice ⟨.save (.phase .finished) final, .ok ()⟩
            ⟨.save (.phase .finished) final', .ok ()⟩ := hlike
          cases hlike with
          | same => exact ⟨final.evidence.logAnalysis, final.result, rfl⟩
          | save => exact ⟨_, _, rfl⟩

end Executions

end Conduct

end PackageHarness
