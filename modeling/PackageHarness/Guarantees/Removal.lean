/-
# PackageHarness.Guarantees.Removal — how much of its timeout the removal check uses.

The check lists the inventory every half second, a thousand times at most. For most of the timeouts
that are accepted the thousand listings are enough; for those beyond five hundred seconds the last
of them is made at 499.5 s, and a target that goes away later is reported as still installed.
-/
import PackageHarness.Environment
import PackageHarness.Runner.Removal

namespace PackageHarness

open Interaction Runner Environment

variable {inventory : Inventory} {dnpName : DnpName} {after : Nat}

/-- Half seconds up to the timeout, capped at a thousand: one of them lies behind `after` if that is
no later than the thousandth. -/
theorem half_second_behind_iff {ms : Nat} (htimeout : after + 500000000 < ms * 1000000) :
    (∃ attempt, attempt < min (ms / 500 + 1) 1000 ∧ after ≤ attempt * 500000000) ↔
      after ≤ 499500000000 := by
  constructor
  · rintro ⟨attempt, hattempt, hgone⟩
    omega
  · intro hlimit
    -- the first attempt that is not before the target is gone
    refine ⟨(after + 499999999) / 500000000, ?_, ?_⟩
    · omega
    · omega

theorem removalAttempts_ofMillis (ms : Nat) :
    removalAttempts (.ofMillis ms) = min (ms / 500 + 1) 1000 := by
  show min ((Duration.ofMillis ms).asMillis / 500 + 1) 1000 = _
  rw [Duration.asMillis_ofMillis]

/-- Up to 499.5 s there is an attempt that comes after the target is gone and before the timeout. -/
theorem removalAttempts_suffice {ms : Nat}
    (htimeout : after + removalPoll < Duration.ofMillis ms) :
    (∃ attempt, attempt < removalAttempts (.ofMillis ms) ∧ after ≤ attempt * removalPoll) ↔
      after ≤ Duration.ofMillis 499500 := by
  rw [removalAttempts_ofMillis]
  exact half_second_behind_iff htimeout

/-- A removal that was loaded with a timeout never passes unseen; and of a target that goes away in
good time before the timeout, it is noticed exactly if that happens within 499.5 s. -/
theorem removal_timeout_iff {environment : Variables} {parseUrl : UrlParser}
    {settings : Settings} (hloaded : fromEnv environment parseUrl = .ok settings) :
    (∀ (inventory : Inventory) (dnpName : DnpName), Returns inventory.script
      (PassIsSeen dnpName inventory.removalTime settings.cleanupTimeout)
      (cleanupTarget dnpName settings.cleanupTimeout) {}) ∧
    ∀ (inventory : Inventory) (dnpName : DnpName) (after : Nat),
      inventory.removal = .ok () → (∀ time, inventory.delay time = 0) →
      inventory.Vanishes dnpName after →
      after + Duration.ofMillis 500 < settings.cleanupTimeout →
      (Returns inventory.script (fun result _ => result.status = .passed)
          (cleanupTarget dnpName settings.cleanupTimeout) {} ↔
        after ≤ Duration.ofMillis 499500) := by
  refine ⟨fun inventory dnpName => cleanupTarget_seen, ?_⟩
  intro inventory dnpName after hremoved hinstant hvanishes htimeout
  obtain ⟨ms, _, _, hms⟩ := (fromEnv_accepted hloaded).cleanupTimeout
  rw [hms] at htimeout ⊢
  have hrun := cleanupTarget_instant hremoved hinstant hvanishes htimeout
  rw [← removalAttempts_suffice htimeout]
  obtain ⟨result, course, hreach, hspec⟩ := hrun
  constructor
  · intro hpasses
    exact hspec.mp (hpasses.ends hreach)
  · intro hattempt
    exact ⟨result, course, hreach, hspec.mpr hattempt⟩

namespace Sample

/-- A prompt package manager that lists the target for this long after its removal. -/
def lingering (after : Nat) : Inventory where
  removal := .ok ()
  removalTime := 0
  listing := fun time => .ok (if time < after then [⟨⟨"target"⟩, none, false⟩] else [])
  delay := fun _ => 0

theorem lingering_vanishes (after : Nat) : (lingering after).Vanishes ⟨"target"⟩ after := by
  constructor
  · intro time hbefore
    refine ⟨_, rfl, ?_⟩
    rw [show (lingering after).removalTime + time = time from Nat.zero_add time, if_pos hbefore]
    rfl
  · intro time hafter
    refine ⟨_, rfl, ?_⟩
    rw [show (lingering after).removalTime + time = time from Nat.zero_add time,
      if_neg (by omega)]
    rfl

/-- The longest cleanup timeout that is accepted, next to the essentials. -/
def longCleanup : Variables
  | "CLEANUP_TIMEOUT_MS" => some "600000"
  | _ => none

theorem longCleanup_accepted : ∃ settings,
    fromEnv (essentials longCleanup) httpsOnly = .ok settings ∧
      settings.cleanupTimeout = .ofMillis 600000 :=
  ⟨_, rfl, rfl⟩

end Sample

/-- Under the longest timeout a removal that shows after a minute is noticed. -/
theorem early_removal_is_noticed :
    Returns (Sample.lingering 60000000000).script (fun result _ => result.status = .passed)
      (cleanupTarget ⟨"target"⟩ (.ofMillis 600000)) {} := by
  obtain ⟨settings, hsettings, htimeout⟩ := Sample.longCleanup_accepted
  have hnoticed := (removal_timeout_iff hsettings).2 (Sample.lingering 60000000000) ⟨"target"⟩
    60000000000 rfl (fun _ => rfl) (Sample.lingering_vanishes _)
  rw [htimeout] at hnoticed
  exact (hnoticed (by decide)).mpr (by decide)

/-- Under the same timeout a removal that shows after 550 s is reported as a target that stayed. -/
theorem late_removal_is_missed :
    ¬ ∀ environment parseUrl settings, fromEnv environment parseUrl = .ok settings →
      ∀ (inventory : Inventory) (dnpName : DnpName) (after : Nat),
        inventory.removal = .ok () → (∀ time, inventory.delay time = 0) →
        inventory.Vanishes dnpName after →
        after + Duration.ofMillis 500 < settings.cleanupTimeout →
        Returns inventory.script (fun result _ => result.status = .passed)
          (cleanupTarget dnpName settings.cleanupTimeout) {} := by
  intro hnoticed
  obtain ⟨settings, hsettings, htimeout⟩ := Sample.longCleanup_accepted
  have hpasses := hnoticed _ _ settings hsettings (Sample.lingering 550000000000) ⟨"target"⟩
    550000000000 rfl (fun _ => rfl) (Sample.lingering_vanishes _)
  rw [htimeout] at hpasses
  obtain ⟨result, course, hreach, hspec⟩ := @cleanupTarget_instant (Sample.lingering 550000000000)
    ⟨"target"⟩ (Duration.ofMillis 600000) _ rfl (fun _ => rfl)
    (Sample.lingering_vanishes 550000000000) (by decide)
  obtain ⟨attempt, hattempt, hgone⟩ := hspec.mp ((hpasses (by decide)).ends hreach)
  -- the last attempt is the thousandth
  have hlast : attempt < 1000 := hattempt
  have hgone : 550000000000 ≤ attempt * 500000000 := hgone
  omega

end PackageHarness
