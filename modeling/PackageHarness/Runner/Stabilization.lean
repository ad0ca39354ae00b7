/-
# PackageHarness.Runner.Stabilization — the container stabilization hard check.

`stabilize` polls the package details until every container has been running, under the same names,
for enough consecutive samples. It only reads, so its effect bound has no mutation in it.
-/
import PackageHarness.Runner.Ports

namespace PackageHarness

open Interaction Redaction

/-- Polling policy for the container stabilization hard check. -/
structure StabilizationConfig where
  timeout : Duration
  pollInterval : Duration
  requiredSamples : Nat

/-- Ascending order of strings, as `Vec::sort` produces it. -/
def sortNames (names : List String) : List String :=
  names.mergeSort fun a b => !decide (b < a)

namespace Runner

/-- The accumulators of the polling loop. -/
structure Streak where
  consecutive : Nat := 0
  expectedNames : Option (List String) := none
  samples : List StabilizationSample := []
  lastNonRunningStates : List String := []

def MAX_HISTORY : Nat := 100

/-- Appends a sample, dropping the oldest one when the history is full. -/
def pushSample (samples : List StabilizationSample) (sample : StabilizationSample) :
    List StabilizationSample :=
  (if samples.length = MAX_HISTORY then samples.drop 1 else samples) ++ [sample]

def nonRunning (details : PackageDetails) : List String :=
  (details.containers.filter (!·.running)).map fun container =>
    let state := container.state.getD "unknown"
    s!"{container.name}:{state}"

def Streak.observe (streak : Streak) (observedAt : String) (details : PackageDetails) : Streak :=
  let names := sortNames (details.containers.map (·.name))
  let stopped := nonRunning details
  let allRunning := !details.containers.isEmpty && stopped.isEmpty
  { consecutive :=
      if allRunning then
        if streak.expectedNames = some names then streak.consecutive + 1 else 1
      else 0
    expectedNames := if allRunning then some names else none
    samples := pushSample streak.samples ⟨observedAt, names, allRunning, stopped, none⟩
    lastNonRunningStates := if stopped.isEmpty then streak.lastNonRunningStates else stopped }

def Streak.observeError (streak : Streak) (observedAt : String) (error : PackageManagerError) :
    Streak :=
  { streak with
    consecutive := 0
    expectedNames := none
    samples := pushSample streak.samples
      ⟨observedAt, [], false, [], some (truncateUtf8 error.toText 300)⟩ }

def Streak.finish (streak : Streak) (passed : Bool) (started : Timestamp) :
    Runner StabilizationResult := do
  let finished ← now
  return { passed := passed
           stableSamples := streak.consecutive
           durationMs := elapsedMs started finished
           samples := streak.samples
           lastNonRunningStates := streak.lastNonRunningStates }

/-- One observation, and whether it completes the required streak. -/
def sampleContainers (ext : Externals) (dnpName : DnpName) (config : StabilizationConfig)
    (streak : Streak) : Runner (Streak × Bool) := do
  let observedAt ← now
  match ← pm (.getPackageDetails dnpName) with
  | .ok details =>
      let streak := streak.observe (ext.toRfc3339 observedAt) details
      return (streak, config.requiredSamples ≤ streak.consecutive)
  | .error error => return (streak.observeError (ext.toRfc3339 observedAt) error, false)

/-- The polling loop with `left` attempts to go. -/
def stabilizeLoop (ext : Externals) (dnpName : DnpName) (config : StabilizationConfig)
    (started : Timestamp) : (left : Nat) → Streak → Runner StabilizationResult
  | 0, streak => streak.finish false started
  | left + 1, streak => do
      if (← control) ≠ .proceed then
        streak.finish false started
      else
        let (streak, stable) ← sampleContainers ext dnpName config streak
        if stable then
          streak.finish true started
        else if left = 0 then
          streak.finish false started
        else
          sleep config.pollInterval
          if (← control) ≠ .proceed then
            streak.finish false started
          else
            stabilizeLoop ext dnpName config started left streak

def stabilizationAttempts (config : StabilizationConfig) : Nat :=
  min (config.timeout.asMillis / max config.pollInterval.asMillis 1 + 1) 10000

/-- Waits until every container in the package is running for enough samples. -/
def stabilize (ext : Externals) (dnpName : DnpName) (config : StabilizationConfig) :
    Runner StabilizationResult := do
  let started ← now
  stabilizeLoop ext dnpName config started (stabilizationAttempts config) {}

/-! ## The effect bound -/

/-- The requests of code that observes a run without changing anything. -/
def Observes : RunnerRequest → Prop
  | .pm call => call ≠ .listPackages .preflight ∧ call.mutates = none
  | .analyze _ | .now | .instant | .sleep _ | .publish _ _ | .control => True
  | _ => False

/-- The requests of code that only looks at one package. -/
def Looks : RunnerRequest → Prop
  | .pm call => call.mutates = none ∧ ∀ purpose, call ≠ .listPackages purpose
  | .now | .instant | .sleep _ | .publish _ _ | .control => True
  | _ => False

theorem Looks.observes {request : RunnerRequest} (h : Looks request) : Observes request := by
  cases request with
  | pm call => exact ⟨h.2 .preflight, h.1⟩
  | listPackagesWithin remaining => exact h
  | get runId => exact h
  | save site record => exact h
  | enter point => exact h
  | _ => trivial

/-- The requests of a stabilization and a capture: they tell nobody. -/
def Samples : RunnerRequest → Prop
  | .pm call => call.mutates = none ∧ ∀ purpose, call ≠ .listPackages purpose
  | .now | .sleep _ | .control => True
  | _ => False

theorem Samples.looks {request : RunnerRequest} (h : Samples request) : Looks request := by
  cases request with
  | pm call => exact h
  | now => trivial
  | sleep duration => trivial
  | control => trivial
  | _ => exact h.elim

theorem Streak.finish_samples {streak : Streak} {passed : Bool} {started : Timestamp} :
    Within Samples (fun _ => True) (streak.finish passed started) :=
  Within.perform trivial fun _ => Within.pure trivial

theorem sampleContainers_samples {ext : Externals} {dnpName : DnpName}
    {config : StabilizationConfig} {streak : Streak} :
    Within Samples (fun _ => True) (sampleContainers ext dnpName config streak) := by
  refine Within.perform trivial ?_
  intro observedAt
  refine Within.perform ⟨rfl, by simp⟩ ?_
  intro r
  rcases r with error | details
  · exact Within.pure trivial
  · exact Within.pure trivial

theorem stabilizeLoop_samples {ext : Externals} {dnpName : DnpName} {config : StabilizationConfig}
    {started : Timestamp} (left : Nat) (streak : Streak) :
    Within Samples (fun _ => True) (stabilizeLoop ext dnpName config started left streak) := by
  induction left generalizing streak with
  | zero => exact Streak.finish_samples
  | succ left ih =>
      refine Within.perform trivial ?_
      intro signal
      dsimp only
      split
      · exact Streak.finish_samples
      · refine Within.bind sampleContainers_samples ?_
        intro r _
        obtain ⟨streak', stable⟩ := r
        dsimp only
        split
        · exact Streak.finish_samples
        · split
          · exact Streak.finish_samples
          · refine Within.perform trivial ?_
            intro _
            refine Within.perform trivial ?_
            intro signal'
            split
            · exact Streak.finish_samples
            · exact ih streak'

theorem stabilize_samples {ext : Externals} {dnpName : DnpName} {config : StabilizationConfig} :
    Within Samples (fun _ => True) (stabilize ext dnpName config) :=
  Within.perform trivial fun _ => stabilizeLoop_samples _ _

theorem stabilize_within {ext : Externals} {dnpName : DnpName} {config : StabilizationConfig} :
    Within Looks (fun _ => True) (stabilize ext dnpName config) :=
  stabilize_samples.mono (fun _ => Samples.looks) fun _ h => h

end Runner

end PackageHarness
