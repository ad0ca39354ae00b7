/-
# PackageHarness.Runner.Sampling — what a stabilization sees, and what it makes of it.

A `Sampling` fixes everything that a stabilization meets: the outcome and the latency of each details
call, the control signals and the clock readings. `Sampling.script` plays it, with the time that has
passed and the calls that were started kept in the `Sampler`. Against it, `stabilize` has one run,
and `stabilize_ended` says all there is to know of where that run stops: which observations it made,
when each of them started, and what the accumulators hold.
-/
import PackageHarness.Interaction.Scripted
import PackageHarness.Runner.Stabilization
import PackageHarness.Sequence.Streak

namespace PackageHarness

open Interaction Redaction Sequence

/-- What a stabilization meets, call by call. -/
structure Sampling where
  details : Nat → Except PackageManagerError PackageDetails
  latency : Nat → Duration
  signals : Nat → RunControl
  clock : Nat → Timestamp

/-- How far a stabilization has got. -/
structure Sampler where
  elapsed : Duration := 0
  readings : Nat := 0
  checks : Nat := 0
  /-- When each details call was started, in order. -/
  starts : List Duration := []

/-- The names of the containers, if there are any and all of them run. -/
def healthyNames : Except PackageManagerError PackageDetails → Option (List String)
  | .error _ => none
  | .ok details =>
      if details.containers ≠ [] ∧ ∀ container ∈ details.containers, container.running then
        some (sortNames (details.containers.map (·.name)))
      else none

namespace Sampling

/-- Plays a sampling: the clock, the control cell and the package details answer from it, and time
passes while a details call is pending and in a sleep. -/
def script (sampling : Sampling) : Script RunnerRequest RunnerRequest.Answer Sampler
  | sampler, .now =>
      some (sampling.clock sampler.readings, { sampler with readings := sampler.readings + 1 })
  | sampler, .control =>
      some (sampling.signals sampler.checks, { sampler with checks := sampler.checks + 1 })
  | sampler, .sleep duration =>
      some ((), { sampler with elapsed := sampler.elapsed + duration })
  | sampler, .pm (.getPackageDetails _) =>
      let call := sampler.starts.length
      some (sampling.details call,
        { sampler with
          elapsed := sampler.elapsed + sampling.latency call
          starts := sampler.starts ++ [sampler.elapsed] })
  | _, _ => none

/-- The healthy name set that each observation shows. -/
def names (sampling : Sampling) (call : Nat) : Option (List String) :=
  healthyNames (sampling.details call)

/-- The time that the first details calls take together. -/
def spent (sampling : Sampling) (calls : Nat) : Duration :=
  ((List.range calls).map sampling.latency).sum

/-- When a details call starts, if the stabilization gets that far. -/
def startOf (sampling : Sampling) (config : StabilizationConfig) (call : Nat) : Duration :=
  sampling.spent call + call * config.pollInterval

/-- The evidence that an observation leaves. The first reading of the clock precedes them all. -/
def sample (ext : Externals) (sampling : Sampling) (call : Nat) : StabilizationSample :=
  let observedAt := ext.toRfc3339 (sampling.clock (call + 1))
  match sampling.details call with
  | .ok details =>
      { observedAt := observedAt
        containerNames := sortNames (details.containers.map (·.name))
        allRunning := (sampling.names call).isSome
        nonRunningStates := Runner.nonRunning details
        error := none }
  | .error error =>
      { observedAt := observedAt
        containerNames := []
        allRunning := false
        nonRunningStates := []
        error := some (truncateUtf8 error.toText 300) }

/-- No signal has come by the check before the call's observation. -/
def Proceeds (sampling : Sampling) (calls : Nat) : Prop :=
  ∀ check, check + 1 < 2 * calls → sampling.signals check = .proceed

/-- The window of required samples is complete with this many observations. -/
def Passes (sampling : Sampling) (config : StabilizationConfig) (calls : Nat) : Prop :=
  calls ≤ Runner.stabilizationAttempts config ∧ sampling.Proceeds calls ∧
    Steady sampling.names calls config.requiredSamples

/-- The attempts, the signals and the observations so far let the call be made. -/
def Begins (sampling : Sampling) (config : StabilizationConfig) (call : Nat) : Prop :=
  call < Runner.stabilizationAttempts config ∧ sampling.Proceeds (call + 1) ∧
    ∀ calls, calls ≤ call → ¬ Steady sampling.names calls config.requiredSamples

end Sampling

namespace Runner

variable {ext : Externals} {sampling : Sampling} {config : StabilizationConfig} {dnpName : DnpName}

/-! ## The accumulators -/

/-- The accumulators after one more observation. -/
def Streak.next (ext : Externals) (sampling : Sampling) (call : Nat) (streak : Streak) : Streak :=
  let observedAt := ext.toRfc3339 (sampling.clock (call + 1))
  match sampling.details call with
  | .ok details => streak.observe observedAt details
  | .error error => streak.observeError observedAt error

/-- The accumulators after the first observations. -/
def Streak.after (ext : Externals) (sampling : Sampling) : Nat → Streak
  | 0 => {}
  | calls + 1 => (Streak.after ext sampling calls).next ext sampling calls

theorem nonRunning_isEmpty {details : PackageDetails} :
    (nonRunning details).isEmpty = true ↔
      ∀ container ∈ details.containers, container.running = true := by
  simp [nonRunning]

theorem allRunning_iff {details : PackageDetails} :
    (!details.containers.isEmpty && (nonRunning details).isEmpty) = true ↔
      details.containers ≠ [] ∧ ∀ container ∈ details.containers, container.running = true := by
  rw [Bool.and_eq_true, nonRunning_isEmpty]
  simp

theorem allRunning_eq_isSome {details : PackageDetails} :
    (!details.containers.isEmpty && (nonRunning details).isEmpty) =
      (healthyNames (.ok details)).isSome := by
  rw [Bool.eq_iff_iff, allRunning_iff, healthyNames]
  split <;> simp_all

theorem Streak.next_expectedNames (streak : Streak) (call : Nat) :
    (streak.next ext sampling call).expectedNames = sampling.names call := by
  unfold Streak.next Sampling.names
  cases sampling.details call with
  | error error => rfl
  | ok details =>
      show (if _ then _ else _) = _
      rw [allRunning_eq_isSome, healthyNames]
      split <;> simp_all

theorem Streak.next_consecutive (streak : Streak) (call : Nat) :
    (streak.next ext sampling call).consecutive =
      if (sampling.names call).isSome then
        if streak.expectedNames = sampling.names call then streak.consecutive + 1 else 1
      else 0 := by
  unfold Streak.next Sampling.names
  cases sampling.details call with
  | error error => rfl
  | ok details =>
      show (if _ then _ else _) = _
      rw [allRunning_eq_isSome, healthyNames]
      split <;> simp_all

theorem Streak.next_samples (streak : Streak) (call : Nat) :
    (streak.next ext sampling call).samples =
      pushSample streak.samples (sampling.sample ext call) := by
  unfold Streak.next Sampling.sample Sampling.names
  cases sampling.details call with
  | error error => rfl
  | ok details =>
      show pushSample _ _ = pushSample _ _
      rw [allRunning_eq_isSome]

/-- The counter is the trailing streak of the health of the observations. -/
theorem Streak.after_consecutive (calls : Nat) :
    (Streak.after ext sampling calls).consecutive = streak sampling.names calls := by
  induction calls with
  | zero => rfl
  | succ calls ih =>
      rw [Streak.after, Streak.next_consecutive, ih, streak]
      cases calls with
      | zero =>
          -- before the first observation no names are expected, and there is nothing to continue
          split <;> simp [streak]
      | succ calls => rw [Streak.after, Streak.next_expectedNames, Nat.add_sub_cancel]

theorem pushSample_bounded (samples : List StabilizationSample) (sample : StabilizationSample) :
    pushSample (samples.drop (samples.length - MAX_HISTORY)) sample =
      (samples ++ [sample]).drop (samples.length + 1 - MAX_HISTORY) := by
  have hpositive : MAX_HISTORY = 100 := rfl
  unfold pushSample
  rw [List.length_drop]
  split
  · next hfull =>
      rw [List.drop_drop, List.drop_append_of_le_length (by omega)]
      congr 2
      omega
  · next hroom =>
      have hzero : samples.length - MAX_HISTORY = 0 := by omega
      have hzero' : samples.length + 1 - MAX_HISTORY = 0 := by omega
      rw [hzero, hzero']
      rfl

/-- The history is the latest part of the observations, in order. -/
theorem Streak.after_samples (calls : Nat) :
    (Streak.after ext sampling calls).samples =
      ((List.range calls).map (sampling.sample ext)).drop (calls - MAX_HISTORY) := by
  induction calls with
  | zero => rfl
  | succ calls ih =>
      have hpushed := pushSample_bounded ((List.range calls).map (sampling.sample ext))
        (sampling.sample ext calls)
      rw [List.length_map, List.length_range] at hpushed
      rw [Streak.after, Streak.next_samples, ih, hpushed, List.range_succ, List.map_append]
      rfl

/-! ## The run -/

/-- Where a stabilization has stopped, and what it reports there. -/
structure Ended (ext : Externals) (sampling : Sampling) (config : StabilizationConfig)
    (result : StabilizationResult) (sampler : Sampler) : Prop where
  attempts : sampler.starts.length ≤ stabilizationAttempts config
  starts : sampler.starts = (List.range sampler.starts.length).map (sampling.startOf config)
  proceeds : sampling.Proceeds sampler.starts.length
  unstable : ∀ calls, calls < sampler.starts.length →
    streak sampling.names calls < config.requiredSamples
  passed : result.passed =
    decide (config.requiredSamples ≤ streak sampling.names sampler.starts.length)
  stableSamples : result.stableSamples = streak sampling.names sampler.starts.length
  samples : result.samples =
    ((List.range sampler.starts.length).map (sampling.sample ext)).drop
      (sampler.starts.length - MAX_HISTORY)
  /-- Without a pass, the attempts have been used up or a signal has come. -/
  stopped : result.passed = false →
    sampler.starts.length = stabilizationAttempts config ∨
      sampling.signals (2 * sampler.starts.length) ≠ .proceed ∨
      0 < sampler.starts.length ∧ sampling.signals (2 * sampler.starts.length - 1) ≠ .proceed

/-- The sampler at the head of the loop, with this many observations behind it. -/
def atAttempt (sampling : Sampling) (config : StabilizationConfig) (calls : Nat) : Sampler where
  elapsed := sampling.startOf config calls
  readings := calls + 1
  checks := 2 * calls
  starts := (List.range calls).map (sampling.startOf config)

/-- The sampler right after an observation. -/
def afterObservation (sampling : Sampling) (config : StabilizationConfig) (calls : Nat) :
    Sampler where
  elapsed := sampling.startOf config calls + sampling.latency calls
  readings := calls + 2
  checks := 2 * calls + 1
  starts := (List.range (calls + 1)).map (sampling.startOf config)

theorem startOf_succ (calls : Nat) :
    sampling.startOf config calls + sampling.latency calls + config.pollInterval =
      sampling.startOf config (calls + 1) := by
  unfold Sampling.startOf Sampling.spent
  rw [List.range_succ, List.map_append, List.sum_append, Nat.succ_mul]
  simp only [List.map_cons, List.map_nil, List.sum_cons, List.sum_nil, Nat.add_zero]
  ac_rfl

theorem finish_ended {started : Timestamp} {calls : Nat} {passed : Bool} {sampler : Sampler}
    (hstarts : sampler.starts = (List.range calls).map (sampling.startOf config))
    (hattempts : calls ≤ stabilizationAttempts config) (hproceeds : sampling.Proceeds calls)
    (hunstable : ∀ k, k < calls → streak sampling.names k < config.requiredSamples)
    (hpassed : passed = decide (config.requiredSamples ≤ streak sampling.names calls))
    (hstopped : passed = false →
      calls = stabilizationAttempts config ∨ sampling.signals (2 * calls) ≠ .proceed ∨
        0 < calls ∧ sampling.signals (2 * calls - 1) ≠ .proceed) :
    Returns sampling.script (Ended ext sampling config)
      ((Streak.after ext sampling calls).finish passed started) sampler := by
  have hcalls : sampler.starts.length = calls := by
    rw [hstarts, List.length_map, List.length_range]
  refine Returns.perform rfl (Returns.pure ?_)
  constructor <;> dsimp only <;> rw [hcalls]
  · exact hattempts
  · exact hstarts
  · exact hproceeds
  · exact hunstable
  · exact hpassed
  · exact Streak.after_consecutive calls
  · exact Streak.after_samples calls
  · exact hstopped

/-- One observation: the accumulators and the sampler move on together. -/
theorem sampleContainers_returns (hrequired : 1 ≤ config.requiredSamples) (calls : Nat) :
    Returns sampling.script
      (fun r sampler =>
        r = (Streak.after ext sampling (calls + 1),
          decide (config.requiredSamples ≤ streak sampling.names (calls + 1))) ∧
        sampler = afterObservation sampling config calls)
      (sampleContainers ext dnpName config (Streak.after ext sampling calls))
      { atAttempt sampling config calls with checks := 2 * calls + 1 } := by
  have hanswer : sampling.script
      { atAttempt sampling config calls with readings := calls + 2, checks := 2 * calls + 1 }
      (.pm (.getPackageDetails dnpName)) =
      some (sampling.details calls, afterObservation sampling config calls) := by
    simp [Sampling.script, atAttempt, afterObservation, List.range_succ]
  refine Returns.perform rfl (Returns.perform hanswer ?_)
  have hconsecutive : (Streak.after ext sampling (calls + 1)).consecutive =
      streak sampling.names (calls + 1) := Streak.after_consecutive _
  cases houtcome : sampling.details calls with
  | ok details =>
      have hnext : Streak.after ext sampling (calls + 1) =
          (Streak.after ext sampling calls).observe
            (ext.toRfc3339 (sampling.clock (calls + 1))) details := by
        simp only [Streak.after, Streak.next, houtcome]
      refine Returns.pure ⟨?_, rfl⟩
      rw [← hconsecutive, hnext]
      rfl
  | error error =>
      have hnext : Streak.after ext sampling (calls + 1) =
          (Streak.after ext sampling calls).observeError
            (ext.toRfc3339 (sampling.clock (calls + 1))) error := by
        simp only [Streak.after, Streak.next, houtcome]
      have hreset : streak sampling.names (calls + 1) = 0 := by
        simp [streak, Sampling.names, houtcome, healthyNames]
      refine Returns.pure ⟨?_, rfl⟩
      -- a failed call never completes the window, since at least one sample is required
      rw [hreset, hnext]
      have hzero : decide (config.requiredSamples ≤ 0) = false := by
        simp only [decide_eq_false_iff_not]
        omega
      rw [hzero]
      rfl

/-- The loop, from an attempt that all checks so far have let it come to. -/
theorem stabilizeLoop_ended (hrequired : 1 ≤ config.requiredSamples) {started : Timestamp}
    (left calls : Nat) (hleft : calls + left = stabilizationAttempts config)
    (hproceeds : ∀ check, check < 2 * calls → sampling.signals check = .proceed)
    (hunstable : ∀ k, k ≤ calls → streak sampling.names k < config.requiredSamples) :
    Returns sampling.script (Ended ext sampling config)
      (stabilizeLoop ext dnpName config started left (Streak.after ext sampling calls))
      (atAttempt sampling config calls) := by
  -- on the attempts that are left; what is behind the loop grows by one observation
  induction left generalizing calls with
  | zero =>
      have hnow := hunstable calls (le_refl calls)
      refine finish_ended rfl (by omega) ?_ ?_ ?_ ?_
      · exact fun check hcheck => hproceeds check (by omega)
      · exact fun k hk => hunstable k (by omega)
      · simpa using hnow
      · exact fun _ => Or.inl (by omega)
  | succ left ih =>
      have hnow := hunstable calls (le_refl calls)
      refine Returns.perform rfl ?_
      dsimp only [atAttempt]
      split
      · next hsignal =>
          refine finish_ended rfl (by omega) ?_ ?_ ?_ ?_
          · exact fun check hcheck => hproceeds check (by omega)
          · exact fun k hk => hunstable k (by omega)
          · simpa using hnow
          · exact fun _ => Or.inr (Or.inl hsignal)
      · next hsignal =>
          have hcheck : sampling.signals (2 * calls) = .proceed := by simpa using hsignal
          have hproceeds' : sampling.Proceeds (calls + 1) := by
            intro check hbefore
            rcases Nat.lt_or_ge check (2 * calls) with hlt | hge
            · exact hproceeds check hlt
            · have heq : check = 2 * calls := by omega
              rw [heq]
              exact hcheck
          refine Returns.bind_value (sampleContainers_returns hrequired calls) ?_
          dsimp only
          split
          · next hstable =>
              refine finish_ended rfl (by omega) hproceeds' ?_ hstable.symm ?_
              · exact fun k hk => hunstable k (by omega)
              · intro hfailed
                cases hfailed
          · next hunready =>
              have hshort : streak sampling.names (calls + 1) < config.requiredSamples := by
                simpa using hunready
              have hunstable' : ∀ k, k ≤ calls + 1 →
                  streak sampling.names k < config.requiredSamples := by
                intro k hk
                rcases Nat.lt_or_ge k (calls + 1) with hlt | hge
                · exact hunstable k (by omega)
                · have heq : k = calls + 1 := by omega
                  rw [heq]
                  exact hshort
              split
              · next hlast =>
                  refine finish_ended rfl (by omega) hproceeds' ?_ ?_ ?_
                  · exact fun k hk => hunstable k (by omega)
                  · simpa using hshort
                  · exact fun _ => Or.inl (by omega)
              · refine Returns.perform rfl (Returns.perform rfl ?_)
                dsimp only [afterObservation]
                split
                · next hsignal' =>
                    refine finish_ended rfl (by omega) hproceeds' ?_ ?_ ?_
                    · exact fun k hk => hunstable k (by omega)
                    · simpa using hshort
                    · exact fun _ => Or.inr (Or.inr ⟨by omega, hsignal'⟩)
                · next hsignal' =>
                    have hcheck' : sampling.signals (2 * calls + 1) = .proceed := by
                      simpa using hsignal'
                    have hnext := ih (calls + 1) (by omega) ?_ hunstable'
                    · rw [startOf_succ]
                      exact hnext
                    · intro check hbefore
                      rcases Nat.lt_or_ge check (2 * calls + 1) with hlt | hge
                      · exact hproceeds' check (by omega)
                      · have heq : check = 2 * calls + 1 := by omega
                        rw [heq]
                        exact hcheck'

/-- Against a sampling, a stabilization ends, and this is where. -/
theorem stabilize_ended (hrequired : 1 ≤ config.requiredSamples) :
    Returns sampling.script (Ended ext sampling config) (stabilize ext dnpName config) {} := by
  refine Returns.perform rfl ?_
  have hstart : ({ readings := 1 } : Sampler) = atAttempt sampling config 0 := by
    simp [atAttempt, Sampling.startOf, Sampling.spent]
  show Returns sampling.script (Ended ext sampling config)
    (stabilizeLoop ext dnpName config _ _ (Streak.after ext sampling 0))
    ({ readings := 1 } : Sampler)
  rw [hstart]
  refine stabilizeLoop_ended hrequired _ 0 (Nat.zero_add _) ?_ ?_
  · exact fun check hcheck => absurd hcheck (by omega)
  · intro k hk
    have hzero : k = 0 := by omega
    rw [hzero]
    exact hrequired

/-! ## When the samples start -/

/-- The stabilization starts a details call at this time. -/
def StartsSample (ext : Externals) (dnpName : DnpName) (config : StabilizationConfig)
    (sampling : Sampling) (time : Duration) : Prop :=
  ∃ asked next sampler,
    Reaches sampling.script.semantics (stabilize ext dnpName config, ({} : Sampler))
      (.request (.pm (.getPackageDetails asked)) next, sampler) ∧ sampler.elapsed = time

/-- Only a details call adds to the starts, and it adds the time at which it is made. -/
theorem starts_of_answer {before after : Sampler} {request : RunnerRequest}
    {answer : request.Answer} (h : sampling.script before request = some (answer, after)) :
    after.starts = before.starts ∨
      (∃ asked, request = .pm (.getPackageDetails asked)) ∧
        after.starts = before.starts ++ [before.elapsed] := by
  cases request with
  | pm call =>
      cases call with
      | getPackageDetails asked =>
          cases h
          exact Or.inr ⟨⟨asked, rfl⟩, rfl⟩
      | _ => cases h
  | now =>
      cases h
      exact Or.inl rfl
  | sleep duration =>
      cases h
      exact Or.inl rfl
  | control =>
      cases h
      exact Or.inl rfl
  | _ => cases h

variable {α : Type}

theorem starts_prefix {c c' : Runner α × Sampler} (h : Reaches sampling.script.semantics c c') :
    c.2.starts <+: c'.2.starts := by
  induction h with
  | refl => exact List.prefix_refl _
  | tail _ hstep ih =>
      cases hstep with
      | answer hanswer =>
          rcases starts_of_answer hanswer with hsame | ⟨_, hgrown⟩
          · exact hsame ▸ ih
          · exact ih.trans (hgrown ▸ List.prefix_append _ _)
      | drift hdrift => exact hdrift.elim
      | unroll => exact ih

/-- Every start on record belongs to a call that was made at that time. -/
theorem start_pending {p : Runner α} {c : Runner α × Sampler} {time : Duration}
    (h : Reaches sampling.script.semantics (p, {}) c) (htime : time ∈ c.2.starts) :
    ∃ asked next sampler, Reaches sampling.script.semantics (p, {})
      (.request (.pm (.getPackageDetails asked)) next, sampler) ∧ sampler.elapsed = time := by
  induction h with
  | refl => cases htime
  | @tail b c hreach hstep ih =>
      cases hstep with
      | answer hanswer =>
          rcases starts_of_answer hanswer with hsame | ⟨⟨asked, rfl⟩, hgrown⟩
          · exact ih (hsame ▸ htime)
          · have hmem := hgrown ▸ htime
            rcases List.mem_append.mp hmem with hold | hnew
            · exact ih hold
            · exact ⟨asked, _, _, hreach, (List.mem_singleton.mp hnew).symm⟩
      | drift hdrift => exact hdrift.elim
      | unroll => exact ih htime

/-- The number of observations is how many calls are let begin. -/
theorem Ended.begins_iff {result : StabilizationResult} {sampler : Sampler}
    (h : Ended ext sampling config result sampler) (call : Nat) :
    sampling.Begins config call ↔ call < sampler.starts.length := by
  constructor
  · rintro ⟨hattempts, hproceeds, hunstable⟩
    by_contra hge
    have hle : sampler.starts.length ≤ call := Nat.le_of_not_lt hge
    have hpassed : result.passed = false := by
      rw [h.passed]
      simpa [le_streak_iff] using hunstable _ hle
    rcases h.stopped hpassed with hall | hsignal | ⟨hpositive, hsignal⟩
    · omega
    · exact hsignal (hproceeds _ (by omega))
    · exact hsignal (hproceeds _ (by omega))
  · intro hcall
    refine ⟨hcall.trans_le h.attempts, ?_, ?_⟩
    · exact fun check hcheck => h.proceeds check (by omega)
    · intro calls hcalls hsteady
      have hshort := h.unstable calls (by omega)
      have hlong := hsteady.le_streak
      omega

/-- The samples that are started, and when. -/
theorem startsSample_iff (hrequired : 1 ≤ config.requiredSamples) {time : Duration} :
    StartsSample ext dnpName config sampling time ↔
      ∃ call, sampling.Begins config call ∧ time = sampling.startOf config call := by
  have hreturns : Returns sampling.script (Ended ext sampling config)
      (stabilize ext dnpName config) {} := stabilize_ended hrequired
  obtain ⟨result, last, hrun, hended⟩ := hreturns
  have hmem : time ∈ last.starts ↔
      ∃ call, sampling.Begins config call ∧ time = sampling.startOf config call := by
    rw [hended.starts]
    simp only [List.mem_map, List.mem_range, hended.begins_iff, eq_comm]
  rw [← hmem]
  constructor
  · rintro ⟨asked, next, sampler, hreach, rfl⟩
    -- the pending call is answered on the way to the end
    have hrest := hreach.ends hrun
    rcases Relation.ReflTransGen.cases_head hrest with heq | ⟨c, hstep, hlast⟩
    · cases heq
    · cases hstep with
      | answer hanswer =>
          cases hanswer
          have hprefix := starts_prefix hlast
          exact hprefix.subset (by simp)
      | drift hdrift => exact hdrift.elim
  · exact fun htime => start_pending hrun htime

end Runner

end PackageHarness
