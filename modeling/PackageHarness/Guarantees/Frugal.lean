/-
# PackageHarness.Guarantees.Frugal — every execution ends, and asks for little.
-/
import PackageHarness.Conduct.Rehearsal
import PackageHarness.Conduct.Spending
import PackageHarness.Guarantees.Stabilized

namespace PackageHarness

open Interaction Environment

/-- The exchanges alone. -/
def Spending.exchanges : Spending →+ Nat :=
  (AddMonoidHom.fst Nat Nat).comp ((AddMonoidHom.snd Nat (Nat × Nat)).comp
    (AddMonoidHom.snd Nat (Nat × Nat × Nat)))

theorem Spending.exchanges_mono : Monotone Spending.exchanges := fun _ _ h => h.2.2.1

namespace Runner

theorem stabilizationSleep_le {settings : Settings} (h : Accepted settings) :
    stabilizationSleep settings.deployment.runner.stabilization ≤
      settings.stabilizationTimeout := by
  have hpos : 0 < stabilizationAttempts settings.deployment.runner.stabilization :=
    lt_min (Nat.succ_pos _) (by decide)
  exact h.attempts_fit (Nat.sub_lt hpos Nat.one_pos)

theorem stabilizationAttempts_le {settings : Settings} (h : Accepted settings) :
    stabilizationAttempts settings.deployment.runner.stabilization ≤
      settings.stabilizationTimeout.asMillis / settings.stabilizationPoll.asMillis + 1 := by
  obtain ⟨poll, hpoll, _, hinterval⟩ := h.stabilizationPoll
  have hmax : max settings.stabilizationPoll.asMillis 1 = settings.stabilizationPoll.asMillis := by
    rw [hinterval, Duration.asMillis_ofMillis]
    omega
  rw [← hmax]
  exact min_le_left _ _

theorem removalAttempts_le (timeout : Duration) :
    removalAttempts timeout ≤ timeout.asMillis / 500 + 1 := by
  have hpoll : removalPoll.asMillis = 500 := Duration.asMillis_ofMillis 500
  unfold removalAttempts
  rw [hpoll]
  exact min_le_left _ _

theorem removalSleep_le (timeout : Duration) : removalSleep timeout ≤ timeout := by
  have hnanos : ∀ nanos : Nat,
      (min (nanos / 1000000 / 500 + 1) 1000 - 1) * 500000000 ≤ nanos := by
    intro nanos
    omega
  exact hnanos timeout

theorem Spending.le_of_parts {samples checks sleeps pauses x y timeout cleanup : Nat}
    (hsamples : samples ≤ x + 1) (hchecks : checks ≤ y + 1) (hsleeps : sleeps ≤ timeout)
    (hpauses : pauses ≤ cleanup) :
    ((6, 2 * samples + checks + 17, 10 * samples + 4 * checks + 93, 2 * sleeps + pauses) :
      Spending) + (0, 0, 1, 0) ≤
        (6, 2 * x + y + 20, 10 * x + 4 * y + 108, 2 * timeout + cleanup) :=
  Spending.add_le (by omega)

/-- The budget in terms of the timeouts that it comes from. -/
theorem budget_le {settings : Settings} (h : Accepted settings) :
    budget settings.deployment.runner + (0, 0, 1, 0) ≤
      (6,
        2 * (settings.stabilizationTimeout.asMillis / settings.stabilizationPoll.asMillis) +
          settings.cleanupTimeout.asMillis / 500 + 20,
        10 * (settings.stabilizationTimeout.asMillis / settings.stabilizationPoll.asMillis) +
          4 * (settings.cleanupTimeout.asMillis / 500) + 108,
        2 * settings.stabilizationTimeout + settings.cleanupTimeout) :=
  Spending.le_of_parts (stabilizationAttempts_le h) (removalAttempts_le _)
    (stabilizationSleep_le h) (removalSleep_le _)

/-- Whatever is answered, an execution under a loaded configuration makes at most six mutating
calls, and calls, exchanges and time asleep keep to what the configured timeouts allow; it ends as soon as
its requests are answered. -/
theorem execute_bounded {environment : Variables} {parseUrl : UrlParser} {settings : Settings}
    (hloaded : fromEnv environment parseUrl = .ok settings) (ext : Externals) (runId : RunId) :
    (∀ p t, Reaches recording (execute ext settings.deployment.runner runId, []) (p, t) →
      t.spent RunnerRequest.spending ≤
        (6,
          2 * (settings.stabilizationTimeout.asMillis / settings.stabilizationPoll.asMillis) +
            settings.cleanupTimeout.asMillis / 500 + 20,
          10 * (settings.stabilizationTimeout.asMillis / settings.stabilizationPoll.asMillis) +
            4 * (settings.cleanupTimeout.asMillis / 500) + 108,
          2 * settings.stabilizationTimeout + settings.cleanupTimeout)) ∧
    ∀ {W : Type} (script : Script RunnerRequest RunnerRequest.Answer W) (w : W),
      (∀ w request, (script w request).isSome) → ∃ outcome w', Program.replay script
        (10 * (settings.stabilizationTimeout.asMillis / settings.stabilizationPoll.asMillis) +
          4 * (settings.cleanupTimeout.asMillis / 500) + 108)
        (execute ext settings.deployment.runner runId, w) = (.pure outcome, w') := by
  have hspends : Spends _ (execute ext settings.deployment.runner runId) :=
    execute_spends.mono (budget_le (fromEnv_accepted hloaded))
  constructor
  · intro p t hreaches
    exact hspends.spent_le hreaches
  · intro W script w hanswers
    have hexchanges : (fun request => Spending.exchanges (RunnerRequest.spending request)) =
        fun _ => 1 := by
      funext request
      cases request <;> rfl
    have hcosts := hspends.map Spending.exchanges Spending.exchanges_mono
    rw [hexchanges] at hcosts
    exact hcosts.ends hanswers w

theorem execute_bounded_sample : ∃ settings outcome t,
    fromEnv (essentials fun _ => none) httpsOnly = .ok settings ∧
      Program.replay (answering (Sample.answers (Sample.cooperates none none (.ok ())))) 948
        (execute Sample.ext settings.deployment.runner Sample.run, []) = (.pure outcome, t) := by
  obtain ⟨settings, hloaded, hpolicy, hcleanup⟩ := defaults_accepted
  have htimeout : settings.stabilizationTimeout = .ofMillis 180000 :=
    congrArg StabilizationConfig.timeout hpolicy
  have hpoll : settings.stabilizationPoll = .ofMillis 5000 :=
    congrArg StabilizationConfig.pollInterval hpolicy
  have hcleanup : settings.cleanupTimeout = .ofMillis 60000 := hcleanup
  obtain ⟨outcome, t, hends⟩ := (execute_bounded hloaded Sample.ext Sample.run).2
    (answering (Sample.answers (Sample.cooperates none none (.ok ())))) [] fun _ _ => rfl
  rw [htimeout, hpoll, hcleanup, Duration.asMillis_ofMillis, Duration.asMillis_ofMillis,
    Duration.asMillis_ofMillis] at hends
  exact ⟨settings, outcome, t, hloaded, hends⟩

end Runner

end PackageHarness
