/-
# PackageHarness.Guarantees.Stabilized — the stabilization check as a window, and its time limit.

The check is described by two neighbouring labels and a counter; what it decides is whether some
window of observations is healthy under one name set. The configuration that is loaded always leaves
room for such a window. Its time limit, however, bounds the number of attempts and not the time:
slow details calls push the later samples behind it, and the theorem says which.
-/
import PackageHarness.Environment
import PackageHarness.Runner.Sampling
import PackageHarness.System.Scenario

namespace PackageHarness

open Interaction Sequence Runner

variable {ext : Externals} {sampling : Sampling} {config : StabilizationConfig} {dnpName : DnpName}

/-! ## The window -/

/-- The window definition of a stabilization, with the observations that it made. -/
structure Windowed (ext : Externals) (sampling : Sampling) (config : StabilizationConfig)
    (result : StabilizationResult) (observations : Nat) : Prop where
  passed_iff : result.passed = true ↔ ∃ calls, sampling.Passes config calls
  least : result.passed = true →
    IsLeast {calls | sampling.Passes config calls} observations ∧
      result.stableSamples = config.requiredSamples
  trailing : result.passed = false →
    IsGreatest {length | Steady sampling.names observations length} result.stableSamples
  history : result.samples =
    ((List.range observations).map (sampling.sample ext)).drop (observations - min 100 observations)

theorem Sampling.Passes.positive (hrequired : 1 ≤ config.requiredSamples) {calls : Nat}
    (h : sampling.Passes config calls) : 0 < calls := by
  have hroom := h.2.2.1
  omega

/-- A stabilization that goes on has met no complete window, and stops at the first. -/
theorem Runner.Ended.windowed (hrequired : 1 ≤ config.requiredSamples) {result : StabilizationResult}
    {sampler : Sampler} (h : Ended ext sampling config result sampler) :
    Windowed ext sampling config result sampler.starts.length := by
  have hpassed : result.passed = true ↔
      Steady sampling.names sampler.starts.length config.requiredSamples := by
    rw [h.passed, decide_eq_true_iff, le_streak_iff]
  have hnever : ∀ calls, calls < sampler.starts.length → ¬ sampling.Passes config calls := by
    intro calls hcalls hwindow
    have hshort := h.unstable calls hcalls
    have hlong := hwindow.2.2.le_streak
    omega
  have hbeyond : ∀ calls, sampling.Passes config calls → result.passed = true := by
    intro calls hwindow
    have hpositive := hwindow.positive hrequired
    have hreached : sampler.starts.length ≤ calls ∨ calls < sampler.starts.length := by omega
    rcases hreached with hle | hlt
    · -- the stabilization got no further than the window, so nothing but a pass has stopped it
      by_contra hfailed
      have hfailed : result.passed = false := by simpa using hfailed
      rcases Nat.eq_or_lt_of_le hle with heq | hlt
      · rw [heq] at hpassed
        exact absurd (hpassed.mpr hwindow.2.2) (by simp [hfailed])
      · rcases h.stopped hfailed with hall | hsignal | ⟨hsome, hsignal⟩
        · have hattempts := hwindow.1
          omega
        · exact hsignal (hwindow.2.1 _ (by omega))
        · exact hsignal (hwindow.2.1 _ (by omega))
    · exact absurd hwindow (hnever calls hlt)
  have hself : result.passed = true → sampling.Passes config sampler.starts.length := fun htrue =>
    ⟨h.attempts, h.proceeds, hpassed.mp htrue⟩
  refine ⟨⟨fun htrue => ⟨_, hself htrue⟩, fun ⟨calls, hwindow⟩ => hbeyond calls hwindow⟩,
    ?_, ?_, ?_⟩
  · intro htrue
    refine ⟨⟨hself htrue, ?_⟩, ?_⟩
    · intro calls hwindow
      by_contra hlt
      exact hnever calls (by omega) hwindow
    · -- one observation earlier the streak was too short, and it grows by one at most
      have hlong := (hself htrue).2.2.le_streak
      have hpositive := (hself htrue).positive hrequired
      obtain ⟨before, hbefore⟩ : ∃ before, sampler.starts.length = before + 1 :=
        ⟨sampler.starts.length - 1, by omega⟩
      have hshort := h.unstable before (by omega)
      have hgrowth : streak sampling.names (before + 1) ≤ streak sampling.names before + 1 :=
        streak_succ_le before
      rw [h.stableSamples]
      rw [hbefore] at hlong ⊢
      omega
  · intro _
    rw [h.stableSamples]
    exact streak_greatest _
  · rw [h.samples]
    congr 1
    show sampler.starts.length - 100 = _
    omega

/-! ## Loaded configurations -/

open Environment

theorem Environment.Accepted.attempts {settings : Settings} (h : Accepted settings) :
    settings.stabilizationRequiredSamples ≤
      stabilizationAttempts settings.deployment.runner.stabilization := by
  obtain ⟨timeout, _, _, htimeout⟩ := h.stabilizationTimeout
  obtain ⟨poll, hpoll, _, hinterval⟩ := h.stabilizationPoll
  obtain ⟨hone, htwenty⟩ := h.requiredSamples
  have hwindow := h.window
  show _ ≤ min (settings.stabilizationTimeout.asMillis /
    max settings.stabilizationPoll.asMillis 1 + 1) 10000
  rw [htimeout, hinterval] at hwindow ⊢
  rw [Duration.asMillis_ofMillis, Duration.asMillis_ofMillis, max_eq_left (by omega)]
  have hroom : poll * (settings.stabilizationRequiredSamples - 1) ≤ timeout := by
    have hscaled : poll * 1000000 * (settings.stabilizationRequiredSamples - 1) ≤
        timeout * 1000000 := hwindow
    rw [Nat.mul_right_comm] at hscaled
    exact Nat.le_of_mul_le_mul_right hscaled (by omega)
  have hquotient : settings.stabilizationRequiredSamples - 1 ≤ timeout / poll := by
    rw [Nat.le_div_iff_mul_le (by omega), Nat.mul_comm]
    exact hroom
  omega

/-- What is always healthy under the same names completes the window as soon as it can. -/
theorem Sampling.passes_of_constant {names : List String}
    (hroom : config.requiredSamples ≤ stabilizationAttempts config)
    (hhealthy : ∀ call, sampling.names call = some names)
    (hproceeds : ∀ check, sampling.signals check = .proceed) :
    sampling.Passes config config.requiredSamples := by
  refine ⟨hroom, fun check _ => hproceeds check, le_refl _, ?_⟩
  intro call _ _
  rw [hhealthy, hhealthy]
  exact ⟨rfl, rfl⟩

/-- A stabilization ends and is what its window definition says; for a configuration that was loaded
from the environment there are attempts enough, so that a package that is always healthy passes. -/
theorem stabilize_windowed (ext : Externals) (sampling : Sampling) (config : StabilizationConfig)
    (dnpName : DnpName) (hrequired : 1 ≤ config.requiredSamples) :
    Returns sampling.script
      (fun result sampler => Windowed ext sampling config result sampler.starts.length)
      (stabilize ext dnpName config) {} ∧
    ∀ environment parseUrl settings, fromEnv environment parseUrl = .ok settings →
      settings.deployment.runner.stabilization = config →
      config.requiredSamples ≤ stabilizationAttempts config ∧
      ((∃ names, ∀ call, sampling.names call = some names) →
        (∀ check, sampling.signals check = .proceed) →
        Returns sampling.script (fun result _ => result.passed = true)
          (stabilize ext dnpName config) {}) := by
  have hwindowed : Returns sampling.script
      (fun result sampler => Windowed ext sampling config result sampler.starts.length)
      (stabilize ext dnpName config) {} :=
    (stabilize_ended hrequired).mono fun _ _ hended => hended.windowed hrequired
  refine ⟨hwindowed, ?_⟩
  intro environment parseUrl settings hloaded hconfig
  have hroom : config.requiredSamples ≤ stabilizationAttempts config := by
    subst hconfig
    exact (fromEnv_accepted hloaded).attempts
  refine ⟨hroom, ?_⟩
  rintro ⟨names, hhealthy⟩ hproceeds
  have hwindow := Sampling.passes_of_constant hroom hhealthy hproceeds
  exact hwindowed.mono fun result sampler hspec => hspec.passed_iff.mpr ⟨_, hwindow⟩

namespace Sample

/-- A package whose one container always runs, observed without a signal. -/
def healthySampling : Sampling where
  details := fun _ => .ok ⟨⟨"target"⟩, none, none, [⟨"main", none, some "running", true, none, none⟩]⟩
  latency := fun _ => 0
  signals := fun _ => .proceed
  clock := fun call => call

/-- The policy that is loaded when nothing but the essentials is set. -/
def defaultPolicy : StabilizationConfig := ⟨.ofMillis 180000, .ofMillis 5000, 3⟩

end Sample

/-- Under the default policy a healthy package passes with the three samples it takes. -/
theorem healthy_package_stabilizes :
    Returns Sample.healthySampling.script
      (fun result _ => result.passed = true ∧ result.stableSamples = 3)
      (stabilize Sample.ext ⟨"target"⟩ Sample.defaultPolicy) {} := by
  obtain ⟨hwindowed, hloaded⟩ := stabilize_windowed Sample.ext Sample.healthySampling
    Sample.defaultPolicy ⟨"target"⟩ (by decide)
  obtain ⟨settings, hsettings, hpolicy, -⟩ := defaults_accepted
  obtain ⟨-, hpasses⟩ := hloaded _ _ settings hsettings hpolicy
  have hpassed := hpasses ⟨_, fun _ => rfl⟩ fun _ => rfl
  obtain ⟨result, sampler, hrun, hspec⟩ := hwindowed
  have htrue := hpassed.ends hrun
  exact ⟨result, sampler, hrun, htrue, (hspec.least htrue).2⟩

/-! ## The time limit -/

theorem Sampling.spent_of_instant (hinstant : ∀ call, sampling.latency call = 0) (calls : Nat) :
    sampling.spent calls = 0 := by
  unfold Sampling.spent
  induction calls with
  | zero => rfl
  | succ calls ih =>
      rw [List.range_succ, List.map_append, List.sum_append, ih]
      simp [hinstant]

/-- Where the attempts fit into the limit, what is left of it has to cover the latencies. -/
theorem Sampling.startOf_le_iff {call : Nat} (hfits : call * config.pollInterval ≤ config.timeout) :
    sampling.startOf config call ≤ config.timeout ↔
      sampling.spent call ≤ config.timeout - call * config.pollInterval := by
  show sampling.spent call + call * config.pollInterval ≤ config.timeout ↔ _
  exact (Nat.le_sub_iff_add_le hfits).symm

/-- The attempts of a loaded configuration fit into its limit if no call takes any time. -/
theorem Environment.Accepted.attempts_fit {settings : Settings} (h : Accepted settings)
    {call : Nat}
    (hcall : call < stabilizationAttempts settings.deployment.runner.stabilization) :
    call * settings.stabilizationPoll ≤ settings.stabilizationTimeout := by
  obtain ⟨timeout, _, _, htimeout⟩ := h.stabilizationTimeout
  obtain ⟨poll, hpoll, _, hinterval⟩ := h.stabilizationPoll
  have hcall : call < min (settings.stabilizationTimeout.asMillis /
    max settings.stabilizationPoll.asMillis 1 + 1) 10000 := hcall
  rw [htimeout, hinterval, Duration.asMillis_ofMillis, Duration.asMillis_ofMillis,
    max_eq_left (by omega)] at hcall
  have hquotient : call ≤ timeout / poll := by omega
  have hscaled := (Nat.le_div_iff_mul_le (by omega)).mp hquotient
  rw [htimeout, hinterval]
  show call * (poll * 1000000) ≤ timeout * 1000000
  rw [← Nat.mul_assoc]
  exact Nat.mul_le_mul_right _ hscaled

/-- No sample starts behind the limit exactly if the calls before each sample that is let begin take
together no longer than the limit exceeds the poll intervals before it. -/
theorem stabilize_punctual_iff (ext : Externals) (sampling : Sampling) (dnpName : DnpName)
    {environment : Variables} {parseUrl : UrlParser} {settings : Settings}
    (hloaded : fromEnv environment parseUrl = .ok settings) :
    (∀ time, StartsSample ext dnpName settings.deployment.runner.stabilization sampling time →
      time ≤ settings.stabilizationTimeout) ↔
    ∀ call, sampling.Begins settings.deployment.runner.stabilization call →
      sampling.spent call ≤ settings.stabilizationTimeout - call * settings.stabilizationPoll := by
  have haccepted := fromEnv_accepted hloaded
  have hrequired : 1 ≤ settings.deployment.runner.stabilization.requiredSamples :=
    haccepted.requiredSamples.1
  have hone : ∀ call, sampling.Begins settings.deployment.runner.stabilization call →
      (sampling.startOf settings.deployment.runner.stabilization call ≤
          settings.stabilizationTimeout ↔
        sampling.spent call ≤
          settings.stabilizationTimeout - call * settings.stabilizationPoll) := by
    intro call hbegins
    exact Sampling.startOf_le_iff (haccepted.attempts_fit hbegins.1)
  constructor
  · intro hpunctual call hbegins
    refine (hone call hbegins).mp (hpunctual _ ?_)
    exact (startsSample_iff hrequired).mpr ⟨call, hbegins, rfl⟩
  · intro hfits time hstarts
    obtain ⟨call, hbegins, rfl⟩ := (startsSample_iff hrequired).mp hstarts
    exact (hone call hbegins).mpr (hfits call hbegins)

namespace Sample

/-- Details calls that all time out after half a minute. -/
def slowSampling : Sampling where
  details := fun _ => .error (.timeout "dappnode_get_package_details")
  latency := fun _ => .ofMillis 30000
  signals := fun _ => .proceed
  clock := fun call => call

theorem slowSampling_begins : slowSampling.Begins defaultPolicy 6 := by
  refine ⟨by decide, fun _ _ => rfl, ?_⟩
  intro calls _ hsteady
  have hroom : 3 ≤ calls := hsteady.1
  have hlast : calls - 3 ≤ calls - 1 := by omega
  have hlabel := (hsteady.2 (calls - 1) hlast (by omega)).1
  cases hlabel

end Sample

/-- Details calls that answer at once are punctual. -/
theorem healthy_package_is_punctual :
    ∃ settings, fromEnv (essentials fun _ => none) httpsOnly = .ok settings ∧
      ∀ time, StartsSample Sample.ext ⟨"target"⟩ settings.deployment.runner.stabilization
        Sample.healthySampling time → time ≤ settings.stabilizationTimeout := by
  obtain ⟨settings, hsettings, -⟩ := defaults_accepted
  refine ⟨settings, hsettings, ?_⟩
  refine (stabilize_punctual_iff Sample.ext Sample.healthySampling ⟨"target"⟩ hsettings).mpr ?_
  intro call _
  rw [Sampling.spent_of_instant (fun _ => rfl)]
  exact Nat.zero_le _

/-- Under the default policy, seven details calls that time out take the last of them half a minute
behind the limit. -/
theorem slow_samples_start_late :
    ¬ ∀ environment parseUrl settings, fromEnv environment parseUrl = .ok settings →
      ∀ ext dnpName sampling time,
        StartsSample ext dnpName settings.deployment.runner.stabilization sampling time →
        time ≤ settings.stabilizationTimeout := by
  intro hpunctual
  obtain ⟨settings, hsettings, hpolicy, -⟩ := defaults_accepted
  have hstart : StartsSample Sample.ext ⟨"target"⟩ Sample.defaultPolicy Sample.slowSampling
      (.ofMillis 210000) :=
    (startsSample_iff (by decide)).mpr ⟨6, Sample.slowSampling_begins, rfl⟩
  have hpolicy' : settings.deployment.runner.stabilization = Sample.defaultPolicy := hpolicy
  have hlate := hpunctual _ _ settings hsettings Sample.ext ⟨"target"⟩ Sample.slowSampling
    (.ofMillis 210000) (hpolicy' ▸ hstart)
  have hlimit : settings.stabilizationTimeout = .ofMillis 180000 :=
    congrArg StabilizationConfig.timeout hpolicy
  rw [hlimit] at hlate
  exact absurd hlate (by decide)

end PackageHarness
