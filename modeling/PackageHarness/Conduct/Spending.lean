/-
# PackageHarness.Conduct.Spending — what one execution may ask of its surroundings.

The requests of an execution are weighed by the mutating calls, the package manager's calls, the
exchanges and the time asleep that they come to. Each function has its budget, which is the sum of
the budgets of what it calls; those of the two polling loops depend on the configured timeouts.
-/
import Mathlib.Algebra.Order.Monoid.Prod
import Mathlib.Algebra.Order.Ring.Nat
import PackageHarness.Interaction.Budget
import PackageHarness.Runner.Controller

namespace PackageHarness

open Interaction

/-- Mutating calls, calls of the package manager, exchanges, and time asleep. -/
abbrev Spending := Nat × Nat × Nat × Nat

def RunnerRequest.spending : RunnerRequest → Spending
  | pm call => (if call.mutates.isSome then 1 else 0, 1, 1, 0)
  | listPackagesWithin _ => (0, 1, 1, 0)
  | sleep duration => (0, 0, 1, duration)
  | _ => (0, 0, 1, 0)

theorem Spending.add_le {a b c d a' b' c' d' a'' b'' c'' d'' : Nat}
    (h : a + a' ≤ a'' ∧ b + b' ≤ b'' ∧ c + c' ≤ c'' ∧ d + d' ≤ d'') :
    ((a, b, c, d) : Spending) + (a', b', c', d') ≤ (a'', b'', c'', d'') :=
  ⟨h.1, h.2.1, h.2.2⟩

theorem Spending.le {a b c d a' b' c' d' : Nat} (h : a ≤ a' ∧ b ≤ b' ∧ c ≤ c' ∧ d ≤ d') :
    ((a, b, c, d) : Spending) ≤ (a', b', c', d') :=
  ⟨h.1, h.2.1, h.2.2⟩

namespace Runner

/-- The requests of runner code come to no more than that. -/
abbrev Spends {α : Type} (n : Spending) (p : Runner α) : Prop :=
  Costs RunnerRequest.spending n p

theorem ask_spends {request : RunnerRequest} (h : request.spending = (0, 0, 1, 0)) :
    Spends (0, 0, 1, 0) (ask request) :=
  Costs.perform h.le

theorem pm_spends {call : PmCall} (h : call.mutates = none) : Spends (0, 1, 1, 0) (pm call) := by
  refine Costs.perform ?_
  simp [RunnerRequest.spending, h]

theorem mutate_spends {call : PmCall} : Spends (1, 1, 1, 0) (pm call) := by
  refine Costs.perform (Spending.le ?_)
  split <;> omega

theorem sleep_spends {duration : Duration} : Spends (0, 0, 1, duration) (sleep duration) :=
  Costs.perform le_rfl

/-! ## Stabilization -/

section Stabilization

variable {ext : Externals} {dnpName : DnpName} {config : StabilizationConfig} {started : Timestamp}

/-- The longest time that a stabilization sleeps. -/
def stabilizationSleep (config : StabilizationConfig) : Duration :=
  (stabilizationAttempts config - 1) * config.pollInterval

theorem Streak.finish_spends {streak : Streak} {passed : Bool} {n : Spending} :
    Spends ((0, 0, 1, 0) + n) (streak.finish passed started) :=
  Costs.bind (ask_spends rfl) fun _ => Costs.pure

theorem sampleContainers_spends {streak : Streak} :
    Spends (0, 1, 2, 0) (sampleContainers ext dnpName config streak) := by
  suffices h : Spends ((0, 0, 1, 0) + ((0, 1, 1, 0) + 0))
      (sampleContainers ext dnpName config streak) from h
  refine Costs.bind (ask_spends rfl) fun _ => Costs.bind (pm_spends rfl) fun answer => ?_
  rcases answer with error | details
  · exact Costs.pure
  · exact Costs.pure

theorem stabilizeLoop_spends (left : Nat) (streak : Streak) :
    Spends (0, left, 5 * left + 1, (left - 1) * config.pollInterval)
      (stabilizeLoop ext dnpName config started left streak) := by
  -- on the attempts that are left; the last one is not followed by a pause
  induction left generalizing streak with
  | zero => exact (Streak.finish_spends (n := 0)).mono (Spending.le (by simp))
  | succ left ih =>
      have hpause : left ≠ 0 → left * config.pollInterval =
          config.pollInterval + (left - 1) * config.pollInterval := by
        intro hleft
        obtain ⟨k, rfl⟩ := Nat.exists_eq_succ_of_ne_zero hleft
        rw [Nat.succ_mul, Nat.add_comm, Nat.succ_sub_one]
      refine Costs.seq (n := (0, 0, 1, 0) + (0, left + 1, 5 * left + 4, left * config.pollInterval))
        (ask_spends rfl) (fun signal => ?_) (Spending.le (by simp; omega))
      dsimp only
      split
      · exact Streak.finish_spends
      refine Costs.seq (n := (0, 0, 1, 0) + (0, left, 5 * left + 2, left * config.pollInterval))
        sampleContainers_spends (fun sampled => ?_) (Spending.le (by simp; omega))
      obtain ⟨streak', stable⟩ := sampled
      dsimp only
      split
      · exact Streak.finish_spends
      split
      · exact Streak.finish_spends
      next hleft =>
      refine Costs.seq (m := (0, 0, 1, config.pollInterval))
        (n := (0, 0, 1, 0) + (0, left, 5 * left + 1, (left - 1) * config.pollInterval))
        sleep_spends (fun _ => ?_) (Spending.le (by simp [hpause hleft]; omega))
      refine Costs.bind (ask_spends rfl) fun signal' => ?_
      split
      · exact (Streak.finish_spends (n := 0)).mono (Spending.le (by simp))
      · exact ih streak'

theorem stabilize_spends :
    Spends (0, stabilizationAttempts config, 5 * stabilizationAttempts config + 2,
      stabilizationSleep config) (stabilize ext dnpName config) :=
  Costs.seq (ask_spends rfl) (fun _ => stabilizeLoop_spends _ _)
    (Spending.le (by simp [stabilizationSleep]; omega))

end Stabilization

/-! ## Removal -/

section Removal

variable {dnpName : DnpName} {timeout : Duration} {started : Nat}

/-- The longest time that a removal check sleeps. -/
def removalSleep (timeout : Duration) : Duration := (removalAttempts timeout - 1) * removalPoll

theorem remainingTime_spends : Spends (0, 0, 1, 0) (remainingTime timeout started) :=
  Costs.seq (ask_spends rfl) (fun _ => Costs.pure (n := 0)) (add_zero _).le

theorem sampleRemoval_spends {last : Bool} :
    Spends (0, 1, 2, 0) (sampleRemoval dnpName timeout started last) := by
  refine Costs.seq (n := (0, 1, 1, 0)) remainingTime_spends (fun remaining => ?_) (le_refl _)
  split
  · exact Costs.pure
  · refine Costs.seq (n := 0) (Costs.perform le_rfl) (fun answer => ?_) (le_refl _)
    rcases answer with _ | (error | packages)
    · exact Costs.pure
    · exact Costs.pure
    · exact Costs.pure

theorem verifyRemoval_spends (left : Nat) :
    Spends (0, left, 4 * left, (left - 1) * removalPoll)
      (verifyRemoval dnpName timeout started left) := by
  -- on the attempts that are left; the last one is not followed by a pause
  induction left with
  | zero => exact Costs.pure
  | succ left ih =>
      refine Costs.seq (n := (0, left, 4 * left + 2, left * removalPoll)) sampleRemoval_spends
        (fun sampled => ?_) (Spending.le (by simp; omega))
      rcases sampled with _ | result
      · dsimp only
        split
        · exact Costs.pure
        next hleft =>
        obtain ⟨k, rfl⟩ := Nat.exists_eq_succ_of_ne_zero hleft
        refine Costs.seq (n := (0, k + 1, 4 * (k + 1) + 1, (k + 1) * removalPoll))
          remainingTime_spends (fun remaining => ?_) (Spending.le (by simp; omega))
        split
        · exact Costs.pure
        · refine Costs.seq (m := (0, 0, 1, removalPoll))
            (n := (0, k + 1, 4 * (k + 1), k * removalPoll))
            (sleep_spends.mono (Spending.le (by simp))) (fun _ => ih)
            (Spending.le (by simp [Nat.succ_mul]; omega))
      · exact Costs.pure

theorem cleanupTarget_spends :
    Spends (1, removalAttempts timeout + 1, 4 * removalAttempts timeout + 2, removalSleep timeout)
      (cleanupTarget dnpName timeout) := by
  have hverify : Spends (0, removalAttempts timeout, 4 * removalAttempts timeout + 1,
      removalSleep timeout) (cleanupTarget.verify dnpName timeout) :=
    Costs.seq (ask_spends rfl) (fun _ => verifyRemoval_spends _)
      (Spending.le (by simp [removalSleep]; omega))
  refine Costs.seq (n := (0, removalAttempts timeout, 4 * removalAttempts timeout + 1,
    removalSleep timeout)) mutate_spends (fun answer => ?_) (Spending.le (by simp; omega))
  rcases answer with error | _
  · dsimp only
    split
    · exact hverify
    · exact Costs.pure
  · exact hverify

theorem restoreLatestTarget_spends : Spends (2, 3, 3, 0) (restoreLatestTarget dnpName) := by
  have hreinstall : Spends ((1, 1, 1, 0) + ((0, 1, 1, 0) + 0))
      (restoreLatestTarget.reinstall dnpName) := by
    refine Costs.bind mutate_spends fun answer => ?_
    rcases answer with error | _
    · exact Costs.pure
    · refine Costs.bind (pm_spends rfl) fun listed => ?_
      rcases listed with error | packages
      · exact Costs.pure
      · exact Costs.pure
  refine Costs.seq (n := (1, 2, 2, 0)) mutate_spends (fun answer => ?_) (le_refl _)
  rcases answer with error | _
  · dsimp only
    split
    · exact hreinstall
    · exact Costs.pure
  · exact hreinstall

theorem applyPlan_spends {plan : TargetRecoveryPlan} :
    Spends (2, removalAttempts timeout + 3, 4 * removalAttempts timeout + 3, removalSleep timeout)
      (applyPlan dnpName timeout plan) := by
  cases plan with
  | restoreLatest => exact restoreLatestTarget_spends.mono (Spending.le (by omega))
  | remove => exact cleanupTarget_spends.mono (Spending.le (by omega))

theorem reconcileTarget_spends {plan : TargetRecoveryPlan} {initial : List PackageSummary} :
    Spends (2, removalAttempts timeout + 4, 4 * removalAttempts timeout + 4, removalSleep timeout)
      (reconcileTarget dnpName plan initial timeout) := by
  refine Costs.seq (n := (0, 1, 1, 0) + 0) applyPlan_spends (fun cleanup => ?_)
    (Spending.le (by simp))
  refine Costs.bind (pm_spends rfl) fun listed => ?_
  rcases listed with error | packages
  · exact Costs.pure
  · exact Costs.pure

end Removal

/-! ## Saves and phases -/

/-- The same of code that drives an execution. -/
abbrev Affords {ε α : Type} (n : Spending)
    (routine : Routine RunnerRequest RunnerRequest.Answer Execution ε α) : Prop :=
  Routine.Costs RunnerRequest.spending n routine

open Routine

theorem saveRecord_affords {site : SaveSite} : Affords (0, 0, 1, 0) (saveRecord site) := by
  suffices h : Affords (0 + ((0, 0, 1, 0) + 0)) (saveRecord site) from h
  refine Costs.bind Costs.read fun s => Costs.bind (Costs.run (ask_spends rfl)) fun answer => ?_
  rcases answer with error | _
  · exact Costs.throw
  · exact Costs.pure

theorem phase_affords {next : ExecutionPhase} : Affords (0, 0, 3, 0) (phase next) := by
  suffices h : Affords ((0, 0, 1, 0) + (0 + ((0, 0, 1, 0) + (0 + (0, 0, 1, 0))))) (phase next)
    from h
  exact Costs.bind (Costs.run (ask_spends rfl)) fun _ => Costs.bind Costs.update fun _ =>
    Costs.bind saveRecord_affords fun _ => Costs.bind Costs.read fun _ =>
      Costs.run (ask_spends rfl)

theorem checkControl_affords : Affords (0, 0, 1, 0) checkControl :=
  (Costs.bind (n := 0) (Costs.run (ask_spends rfl)) fun _ => Costs.ofExcept).mono (le_refl _)

theorem phaseFailure_affords {next : ExecutionPhase} :
    Affords (0, 0, 4, 0) (phaseFailure next) :=
  (Costs.bind (Costs.mapError phase_affords) fun _ => checkControl_affords).mono (le_refl _)

theorem saveFailure_affords {site : SaveSite} : Affords (0, 0, 1, 0) (saveFailure site) :=
  Costs.mapError saveRecord_affords

theorem callOrFail_affords {call : PmCall} {failure : PackageManagerError → Failure}
    {n : Spending} (h : Spends n (pm call)) : Affords n (callOrFail call failure) := by
  rw [← add_zero n]
  refine Costs.bind (Costs.run h) fun answer => ?_
  rcases answer with error | reply
  · exact Costs.throw
  · exact Costs.pure

theorem failWhen_affords {condition : Bool} {failure : Failure} :
    Affords 0 (failWhen condition failure) := by
  cases condition with
  | false => exact Costs.pure
  | true => exact Costs.throw

theorem authorizeCleanup_affords : Affords (0, 0, 2, 0) authorizeCleanup := by
  suffices h : Affords (0 + (0 + ((0, 0, 1, 0) + (0 + (0, 0, 1, 0))))) authorizeCleanup from h
  refine Costs.bind Costs.read fun s => ?_
  split
  · exact Costs.pure
  · exact Costs.bind Costs.update fun _ => Costs.bind saveFailure_affords fun _ =>
      Costs.bind Costs.read fun _ => Costs.run (ask_spends rfl)

/-! ## Preflight and baseline -/

section Algorithm

variable {ext : Externals} {config : RunnerConfig} {package : ResolvedPackage}

theorem preflight_affords : Affords (0, 2, 6, 0) (preflight config package) := by
  suffices h : Affords ((0, 0, 4, 0) + ((0, 1, 1, 0) + (0 + (0 + ((0, 1, 1, 0) + (0 + 0))))))
    (preflight config package) from h
  exact Costs.bind phaseFailure_affords fun _ =>
    Costs.bind (callOrFail_affords (pm_spends rfl)) fun _ => Costs.bind failWhen_affords fun _ =>
      Costs.bind failWhen_affords fun _ => Costs.bind (callOrFail_affords (pm_spends rfl)) fun _ =>
        Costs.bind failWhen_affords fun _ => Costs.pure

theorem recordInventory_affords {packages : List PackageSummary} :
    Affords (0, 0, 2, 0) (recordInventory package packages) := by
  suffices h : Affords (0 + ((0, 0, 1, 0) + (0 + (0, 0, 1, 0)))) (recordInventory package packages)
    from h
  exact Costs.bind Costs.update fun _ => Costs.bind saveFailure_affords fun _ =>
    Costs.bind Costs.update fun _ => saveFailure_affords

theorem reuseInstalledBaseline_affords {installed : Option PackageSummary}
    {preview : PreviewSummary} :
    Affords (0, 1, 1, 0) (reuseInstalledBaseline package installed preview) := by
  unfold reuseInstalledBaseline
  split
  · refine (Costs.bind (n := 0) (Costs.run (pm_spends rfl)) fun answer => ?_).mono (le_refl _)
    rcases answer with error | details
    · exact Costs.pure
    · exact Costs.pure
  · exact Costs.pure

theorem previewBaseline_affords : Affords (0, 1, 5, 0) (previewBaseline package) :=
  (Costs.bind phaseFailure_affords fun _ => callOrFail_affords (pm_spends rfl)).mono (le_refl _)

theorem previewCandidate_affords : Affords (0, 1, 5, 0) (previewCandidate package) :=
  (Costs.bind phaseFailure_affords fun _ => callOrFail_affords (pm_spends rfl)).mono (le_refl _)

theorem removeInstalled_affords : Affords (1, 1, 1, 0) (removeInstalled package) := by
  refine (Costs.bind (n := 0) (Costs.run mutate_spends) fun answer => ?_).mono (le_refl _)
  rcases answer with error | _
  · exact failWhen_affords
  · exact Costs.pure

theorem installBypassingSignature_affords {rejection : PackageManagerError} :
    Affords (1, 1, 2, 0) (installBypassingSignature package rejection) := by
  suffices h : Affords ((1, 1, 1, 0) + (0 + (0, 0, 1, 0)))
    (installBypassingSignature package rejection) from h
  refine Costs.bind (Costs.run mutate_spends) fun answer => ?_
  rcases answer with error | _
  · exact Costs.throw
  · exact Costs.bind Costs.update fun _ => saveFailure_affords

theorem installBaseline_affords : Affords (2, 2, 3, 0) (installBaseline package) := by
  suffices h : Affords ((1, 1, 1, 0) + (1, 1, 2, 0)) (installBaseline package) from h
  refine Costs.bind (Costs.run mutate_spends) fun answer => ?_
  rcases answer with error | _
  · dsimp only
    split
    · exact installBypassingSignature_affords
    · exact Costs.throw
  · exact Costs.pure

theorem prepareBaseline_affords {installed : Option PackageSummary} {reuse : Bool} :
    Affords (3, 3, 6, 0) (prepareBaseline package installed reuse) := by
  unfold prepareBaseline
  split
  · exact Costs.pure
  · suffices h : Affords ((0, 0, 2, 0) + ((1, 1, 1, 0) + (2, 2, 3, 0))) _ from h
    refine Costs.bind authorizeCleanup_affords fun _ => ?_
    dsimp only
    split
    · exact Costs.bind removeInstalled_affords fun _ => installBaseline_affords
    · exact installBaseline_affords.mono le_add_self

/-! ## Capture -/

theorem captureLogs_spends {dnpName : DnpName} :
    Spends (0, 1, 1, 0) (captureLogs ext config dnpName) := by
  refine Interaction.Costs.seq (n := 0) (pm_spends rfl) (fun answer => ?_) (le_refl _)
  rcases answer with error | logs
  · exact .pure
  · exact .pure

theorem capture_spends {dnpName : DnpName} {startedAt : Timestamp} {preview : PreviewSummary}
    {installMs : Nat} {stabilization : StabilizationResult} :
    Spends (0, 2, 3, 0)
      (capture ext config dnpName startedAt preview installMs stabilization) := by
  suffices h : Spends ((0, 1, 1, 0) + ((0, 1, 1, 0) + ((0, 0, 1, 0) + 0)))
    (capture ext config dnpName startedAt preview installMs stabilization) from h
  refine Interaction.Costs.bind (pm_spends rfl) fun answer => ?_
  rcases answer with error | details
  · exact .pure
  · exact Interaction.Costs.bind captureLogs_spends fun _ =>
      Interaction.Costs.bind (ask_spends rfl) fun _ => .pure

theorem stabilizeAndCapture_affords {side : Side} {startedAt : Timestamp}
    {preview : PreviewSummary} {installMs : Nat} :
    Affords (0, stabilizationAttempts config.stabilization + 2,
        5 * stabilizationAttempts config.stabilization + 15,
        stabilizationSleep config.stabilization)
      (stabilizeAndCapture ext config package side startedAt preview installMs) := by
  suffices h : Affords ((0, 0, 4, 0) + ((0, stabilizationAttempts config.stabilization,
      5 * stabilizationAttempts config.stabilization + 2,
      stabilizationSleep config.stabilization) + ((0, 0, 1, 0) + ((0, 0, 4, 0) +
        ((0, 2, 3, 0) + (0 + ((0, 0, 1, 0) + 0)))))))
      (stabilizeAndCapture ext config package side startedAt preview installMs) from
    h.mono (Spending.le (by simp; omega))
  refine Costs.bind phaseFailure_affords fun _ => Costs.bind (Costs.run stabilize_spends) fun _ =>
    Costs.bind checkControl_affords fun _ => Costs.bind phaseFailure_affords fun _ =>
      Costs.bind (Costs.run capture_spends) fun answer => ?_
  rcases answer with error | evidence
  · exact Costs.throw
  · exact Costs.bind Costs.update fun _ => Costs.bind saveFailure_affords fun _ => Costs.ofExcept

/-! ## The algorithm -/

theorem analyzeEvidence_affords : Affords (0, 0, 6, 0) (analyzeEvidence ext) := by
  have hpresent : ∀ {side : String} {evidence : Option CaptureEvidence},
      Affords 0 (presentEvidence side evidence) := by
    intro side evidence
    cases evidence with
    | none => exact Costs.throw
    | some evidence => exact Costs.pure
  suffices h : Affords ((0, 0, 4, 0) + (0 + (0 + (0 + (0 + ((0, 0, 1, 0) + (0 +
    (0, 0, 1, 0)))))))) (analyzeEvidence ext) from h
  exact Costs.bind phaseFailure_affords fun _ => Costs.bind Costs.read fun _ =>
    Costs.bind hpresent fun _ => Costs.bind hpresent fun _ => Costs.bind Costs.update fun _ =>
      Costs.bind (Costs.run (ask_spends rfl)) fun _ => Costs.bind Costs.update fun _ =>
        saveFailure_affords

theorem runBaseline_affords {packages : List PackageSummary} :
    Affords (3, stabilizationAttempts config.stabilization + 7,
        5 * stabilizationAttempts config.stabilization + 33,
        stabilizationSleep config.stabilization)
      (runBaseline ext config package packages) := by
  suffices h : Affords ((0, 1, 5, 0) + ((0, 1, 1, 0) + ((0, 0, 4, 0) + ((0, 0, 1, 0) +
      ((3, 3, 6, 0) + ((0, 0, 1, 0) + (0, stabilizationAttempts config.stabilization + 2,
        5 * stabilizationAttempts config.stabilization + 15,
        stabilizationSleep config.stabilization)))))))
      (runBaseline ext config package packages) from h.mono (Spending.le (by simp; omega))
  exact Costs.bind previewBaseline_affords fun _ => Costs.bind reuseInstalledBaseline_affords
    fun _ => Costs.bind phaseFailure_affords fun _ => Costs.bind (Costs.run (ask_spends rfl))
      fun _ => Costs.bind prepareBaseline_affords fun _ => Costs.bind (Costs.run (ask_spends rfl))
        fun _ => stabilizeAndCapture_affords

theorem runCandidate_affords :
    Affords (1, stabilizationAttempts config.stabilization + 4,
        5 * stabilizationAttempts config.stabilization + 29,
        stabilizationSleep config.stabilization)
      (runCandidate ext config package) := by
  suffices h : Affords ((0, 1, 5, 0) + ((0, 0, 4, 0) + ((0, 0, 2, 0) + ((0, 0, 1, 0) +
      ((1, 1, 1, 0) + ((0, 0, 1, 0) + (0, stabilizationAttempts config.stabilization + 2,
        5 * stabilizationAttempts config.stabilization + 15,
        stabilizationSleep config.stabilization)))))))
      (runCandidate ext config package) from h.mono (Spending.le (by simp; omega))
  exact Costs.bind previewCandidate_affords fun _ => Costs.bind phaseFailure_affords fun _ =>
    Costs.bind authorizeCleanup_affords fun _ => Costs.bind (Costs.run (ask_spends rfl)) fun _ =>
      Costs.bind (callOrFail_affords mutate_spends) fun _ =>
        Costs.bind (Costs.run (ask_spends rfl)) fun _ => stabilizeAndCapture_affords

theorem runAlgorithm_affords :
    Affords (4, 2 * stabilizationAttempts config.stabilization + 13,
        10 * stabilizationAttempts config.stabilization + 77,
        2 * stabilizationSleep config.stabilization)
      (runAlgorithm ext config) := by
  suffices h : Affords ((0, 0, 1, 0) + (0 + ((0, 2, 6, 0) + ((0, 0, 2, 0) +
      ((3, stabilizationAttempts config.stabilization + 7,
        5 * stabilizationAttempts config.stabilization + 33,
        stabilizationSleep config.stabilization) +
      ((1, stabilizationAttempts config.stabilization + 4,
        5 * stabilizationAttempts config.stabilization + 29,
        stabilizationSleep config.stabilization) + (0, 0, 6, 0)))))))
      (runAlgorithm ext config) from h.mono (Spending.le (by simp; omega))
  exact Costs.bind (Costs.run (ask_spends rfl)) fun _ => Costs.bind Costs.read fun _ =>
    Costs.bind preflight_affords fun _ => Costs.bind recordInventory_affords fun _ =>
      Costs.bind runBaseline_affords fun _ => Costs.bind runCandidate_affords fun _ =>
        analyzeEvidence_affords

/-! ## The whole run -/

theorem noteFailure_affords {result : Except Failure Unit} : Affords 0 (noteFailure result) := by
  cases result with
  | ok u => exact Costs.pure
  | error failure => exact (Costs.bind (m := 0) (n := 0) Costs.update fun _ => Costs.pure)

theorem cleanUp_affords :
    Affords (2, removalAttempts config.cleanupTimeout + 4,
        4 * removalAttempts config.cleanupTimeout + 8, removalSleep config.cleanupTimeout)
      (cleanUp config) := by
  suffices h : Affords (0 + ((0, 0, 3, 0) + (0 + ((2, removalAttempts config.cleanupTimeout + 4,
      4 * removalAttempts config.cleanupTimeout + 4, removalSleep config.cleanupTimeout) +
        (0 + (0, 0, 1, 0)))))) (cleanUp config) from h.mono (Spending.le (by simp; omega))
  refine Costs.bind Costs.read fun s => ?_
  split
  · exact Costs.bind phase_affords fun _ => Costs.bind Costs.read fun _ =>
      Costs.bind (Costs.run reconcileTarget_spends) fun _ => Costs.bind Costs.update fun _ =>
        saveRecord_affords
  · exact Costs.update

/-- What an execution may come to under a configuration. -/
def budget (config : RunnerConfig) : Spending :=
  (6,
    2 * stabilizationAttempts config.stabilization + removalAttempts config.cleanupTimeout + 17,
    10 * stabilizationAttempts config.stabilization +
      4 * removalAttempts config.cleanupTimeout + 93,
    2 * stabilizationSleep config.stabilization + removalSleep config.cleanupTimeout)

theorem drive_affords : Affords (budget config) (drive ext config) := by
  suffices h : Affords ((0, 0, 1, 0) + (0 + ((0, 0, 1, 0) + (0 + ((0, 0, 1, 0) +
      ((4, 2 * stabilizationAttempts config.stabilization + 13,
        10 * stabilizationAttempts config.stabilization + 77,
        2 * stabilizationSleep config.stabilization) +
      (0 + ((2, removalAttempts config.cleanupTimeout + 4,
        4 * removalAttempts config.cleanupTimeout + 8, removalSleep config.cleanupTimeout) +
      ((0, 0, 1, 0) + (0 + (0, 0, 3, 0)))))))))))
      (drive ext config) from h.mono (Spending.le (by simp; omega))
  exact Costs.bind (Costs.run (ask_spends rfl)) fun _ => Costs.bind Costs.update fun _ =>
    Costs.bind saveRecord_affords fun _ => Costs.bind Costs.read fun _ =>
      Costs.bind (Costs.run (ask_spends rfl)) fun _ =>
        Costs.bind (Costs.attempt runAlgorithm_affords) fun _ =>
          Costs.bind noteFailure_affords fun _ => Costs.bind cleanUp_affords fun _ =>
            Costs.bind (Costs.run (ask_spends rfl)) fun _ => Costs.bind Costs.update fun _ =>
              phase_affords

theorem execute_spends {runId : RunId} :
    Spends (budget config + (0, 0, 1, 0)) (execute ext config runId) := by
  rw [add_comm]
  refine Interaction.Costs.bind (ask_spends rfl) fun answer => ?_
  rcases answer with error | (_ | record)
  · exact .pure
  · exact .pure
  · dsimp only
    split
    · exact .pure
    · have hdrive : Affords (budget config) (drive ext config) := drive_affords
      rw [← add_zero (budget config)]
      exact (hdrive ⟨record, false⟩).bind fun _ => .pure

end Algorithm

end Runner

end PackageHarness
