/-
# PackageHarness.Runner.Removal — the verification of a removal, against the clock.

An `Inventory` fixes how the package manager answers at each moment and how long it takes.
`Inventory.script` plays it, with the time and the listings that were answered kept in the `Course`.
Against it `cleanupTarget` has one run; what is proved of that run is that a pass rests on a listing
inside the timeout, and at which attempt a target that vanishes is noticed.
-/
import PackageHarness.Interaction.Scripted
import PackageHarness.Runner.Cleanup

namespace PackageHarness

open Interaction

/-- How the package manager behaves while a target is removed: its answers and their delays, by the
time of asking. Times are in nanoseconds. -/
structure Inventory where
  removal : Except PackageManagerError Unit
  removalTime : Nat
  listing : Nat → Except PackageManagerError (List PackageSummary)
  delay : Nat → Nat

/-- How far a removal has got. -/
structure Course where
  time : Nat := 0
  /-- The listings that were answered, each with the time of its answer. -/
  listings : List (Nat × Except PackageManagerError (List PackageSummary)) := []

namespace Inventory

/-- Plays an inventory. A listing that takes longer than it is given is abandoned. -/
def script (inventory : Inventory) : Script RunnerRequest RunnerRequest.Answer Course
  | course, .pm (.removePackage _ _) =>
      some (inventory.removal, { course with time := course.time + inventory.removalTime })
  | course, .instant => some (course.time, course)
  | course, .sleep duration => some ((), { course with time := course.time + duration })
  | course, .listPackagesWithin remaining =>
      if inventory.delay course.time ≤ remaining then
        let answered := course.time + inventory.delay course.time
        let answer := inventory.listing course.time
        some (some answer,
          { course with time := answered, listings := course.listings ++ [(answered, answer)] })
      else some (none, { course with time := course.time + remaining })
  | _, _ => none

/-- The target is listed until this long after the removal, and no longer. -/
structure Vanishes (inventory : Inventory) (dnpName : DnpName) (after : Nat) : Prop where
  before : ∀ time, time < after → ∃ packages,
    inventory.listing (inventory.removalTime + time) = .ok packages ∧
      Runner.lists packages dnpName = true
  from_then : ∀ time, after ≤ time → ∃ packages,
    inventory.listing (inventory.removalTime + time) = .ok packages ∧
      Runner.lists packages dnpName = false

end Inventory

namespace Runner

variable {inventory : Inventory} {dnpName : DnpName} {timeout started : Nat}

/-! ## A pass rests on a listing -/

/-- A pass is due to a listing without the target, answered before the timeout elapsed. -/
def PassIsSeen (dnpName : DnpName) (started timeout : Nat) (result : CleanupResult)
    (course : Course) : Prop :=
  result.status = .passed → ∃ answered packages, (answered, Except.ok packages) ∈ course.listings ∧
    started ≤ answered ∧ answered ≤ started + timeout ∧ lists packages dnpName = false

theorem passIsSeen_of_timedOut {course : Course} :
    PassIsSeen dnpName started timeout removalTimedOut course := nofun

theorem remainingTime_returns {course : Course} :
    Returns inventory.script
      (fun remaining after => remaining = timeout - (course.time - started) ∧ after = course)
      (remainingTime timeout started) course :=
  Returns.perform rfl (Returns.pure ⟨rfl, rfl⟩)

/-- One pass of the loop: the clock does not run backwards, and a result is seen. -/
theorem sampleRemoval_seen {last : Bool} {course : Course} (htime : started ≤ course.time) :
    Returns inventory.script
      (fun r after => started ≤ after.time ∧
        ∀ result ∈ r, PassIsSeen dnpName started timeout result after)
      (sampleRemoval dnpName timeout started last) course := by
  refine Returns.bind_value remainingTime_returns ?_
  split
  · refine Returns.pure ⟨htime, ?_⟩
    intro result hresult
    cases hresult
    exact passIsSeen_of_timedOut
  · next hremaining =>
      have hopen : course.time - started < timeout := by
        have hpositive : timeout - (course.time - started) ≠ 0 := hremaining
        omega
      by_cases hdelay : inventory.delay course.time ≤ timeout - (course.time - started)
      · have hlate : started ≤ course.time + inventory.delay course.time :=
          Nat.le_trans htime (Nat.le_add_right _ _)
        refine Returns.perform (if_pos hdelay) ?_
        cases hlisting : inventory.listing course.time with
        | ok packages =>
            refine Returns.pure ⟨hlate, ?_⟩
            intro result hresult _
            refine ⟨course.time + inventory.delay course.time, packages, by simp, hlate, ?_, ?_⟩
            · omega
            · by_contra hlisted
              have hlisted : lists packages dnpName = true := by simpa using hlisted
              rw [hlisted] at hresult
              cases hresult
        | error error =>
            refine Returns.pure ⟨hlate, ?_⟩
            intro result hresult hpassed
            cases last with
            | false => cases hresult
            | true =>
                cases hresult
                cases hpassed
      · refine Returns.perform (if_neg hdelay) ?_
        refine Returns.pure ⟨Nat.le_trans htime (Nat.le_add_right _ _), ?_⟩
        intro result hresult
        cases hresult
        exact passIsSeen_of_timedOut

theorem verifyRemoval_seen (left : Nat) {course : Course} (htime : started ≤ course.time) :
    Returns inventory.script (PassIsSeen dnpName started timeout)
      (verifyRemoval dnpName timeout started left) course := by
  -- on the attempts that are left; all that is carried along is that time moves forward
  induction left generalizing course with
  | zero => exact Returns.pure passIsSeen_of_timedOut
  | succ left ih =>
      refine (sampleRemoval_seen htime).bind ?_
      intro r after hseen
      obtain ⟨hafter, hresult⟩ := hseen
      cases r with
      | some result => exact Returns.pure (hresult result rfl)
      | none =>
          dsimp only
          split
          · exact Returns.pure passIsSeen_of_timedOut
          · refine Returns.bind_value remainingTime_returns ?_
            split
            · exact Returns.pure passIsSeen_of_timedOut
            · refine Returns.perform rfl ?_
              exact ih (Nat.le_trans hafter (Nat.le_add_right _ _))

/-- The removal passes only if some listing after it, before the timeout elapsed, lacked the
target. -/
theorem cleanupTarget_seen :
    Returns inventory.script (PassIsSeen dnpName inventory.removalTime timeout)
      (cleanupTarget dnpName timeout) {} := by
  have hverify : Returns inventory.script (PassIsSeen dnpName inventory.removalTime timeout)
      (cleanupTarget.verify dnpName timeout) { time := 0 + inventory.removalTime } := by
    rw [Nat.zero_add]
    exact Returns.perform rfl (verifyRemoval_seen _ (le_refl _))
  refine Returns.perform rfl ?_
  cases inventory.removal with
  | ok removed => exact hverify
  | error error =>
      dsimp only
      split
      · exact hverify
      · exact Returns.pure nofun

/-! ## When a vanished target is noticed -/

/-- An attempt that finds the timeout still open lists the target, or notices that it is gone. -/
theorem sampleRemoval_instant {last : Bool} {after time : Nat}
    (hinstant : ∀ time, inventory.delay time = 0) (hvanishes : inventory.Vanishes dnpName after)
    (htime : time < timeout) {course : Course}
    (hcourse : course.time = inventory.removalTime + time) :
    Returns inventory.script
      (fun r later => r = (if time < after then none else some cleanupPassed) ∧
        later.time = course.time)
      (sampleRemoval dnpName timeout inventory.removalTime last) course := by
  refine Returns.bind_value remainingTime_returns ?_
  have hremaining : timeout - (course.time - inventory.removalTime) ≠ 0 := by
    rw [hcourse]
    omega
  rw [if_neg hremaining]
  have hprompt : inventory.delay course.time ≤
      timeout - (course.time - inventory.removalTime) := by
    rw [hinstant]
    exact Nat.zero_le _
  refine Returns.perform (if_pos hprompt) ?_
  have hunmoved : course.time + inventory.delay course.time = course.time := by
    rw [hinstant]
    rfl
  rcases Nat.lt_or_ge time after with hbefore | hafter
  · obtain ⟨packages, hlisting, hlisted⟩ := hvanishes.before time hbefore
    rw [hcourse, hlisting, ← hcourse, if_pos hbefore]
    refine Returns.pure ⟨?_, hunmoved⟩
    rw [hlisted]
    rfl
  · obtain ⟨packages, hlisting, hgone⟩ := hvanishes.from_then time hafter
    rw [hcourse, hlisting, ← hcourse, if_neg (by omega)]
    refine Returns.pure ⟨?_, hunmoved⟩
    rw [hgone]
    rfl

/-- The attempts come one poll interval after the other; the target is found gone if one of them
comes late enough. -/
theorem verifyRemoval_instant {after : Nat}
    (hinstant : ∀ time, inventory.delay time = 0) (hvanishes : inventory.Vanishes dnpName after)
    (htimeout : after + removalPoll < timeout) (left attempt : Nat) {course : Course}
    (hcourse : course.time = inventory.removalTime + attempt * removalPoll)
    (hlisted : ∀ earlier, earlier < attempt → earlier * removalPoll < after) :
    Returns inventory.script
      (fun result _ => result.status = .passed ↔
        ∃ later, later < attempt + left ∧ after ≤ later * removalPoll)
      (verifyRemoval dnpName timeout inventory.removalTime left) course := by
  induction left generalizing attempt course with
  | zero =>
      refine Returns.pure ⟨nofun, ?_⟩
      rintro ⟨later, hlater, hgone⟩
      have hearlier := hlisted later (by omega)
      omega
  | succ left ih =>
      -- the attempt before this one still listed the target, so this one comes before the timeout
      have htime : attempt * removalPoll < timeout := by
        rcases Nat.eq_zero_or_pos attempt with hzero | hpositive
        · rw [hzero, Nat.zero_mul]
          omega
        · have hearlier := hlisted (attempt - 1) (by omega)
          have hstep : attempt * removalPoll = (attempt - 1) * removalPoll + removalPoll := by
            rw [← Nat.succ_mul]
            congr 1
            omega
          omega
      refine (sampleRemoval_instant hinstant hvanishes htime hcourse).bind ?_
      rintro r later ⟨rfl, hlater⟩
      rcases Nat.lt_or_ge (attempt * removalPoll) after with hbefore | hgone
      · rw [if_pos hbefore]
        have hlisted' : ∀ earlier, earlier < attempt + 1 → earlier * removalPoll < after := by
          intro earlier hearlier
          rcases Nat.lt_or_ge earlier attempt with hlt | hge
          · exact hlisted earlier hlt
          · have heq : earlier = attempt := by omega
            rw [heq]
            exact hbefore
        dsimp only
        split
        · next hlast =>
            refine Returns.pure ⟨nofun, ?_⟩
            rintro ⟨attempt', hattempt, hgone⟩
            have hearlier := hlisted' attempt' (by omega)
            omega
        · have hopen : timeout - (later.time - inventory.removalTime) ≠ 0 := by
            rw [hlater, hcourse]
            omega
          have hwhole : min removalPoll (timeout - (later.time - inventory.removalTime)) =
              removalPoll := by
            refine Nat.min_eq_left ?_
            rw [hlater, hcourse]
            omega
          refine Returns.bind_value remainingTime_returns ?_
          rw [if_neg hopen, hwhole]
          refine Returns.perform rfl ?_
          have htime : later.time + removalPoll =
              inventory.removalTime + (attempt + 1) * removalPoll := by
            rw [hlater, hcourse, Nat.succ_mul]
            exact Nat.add_assoc _ _ _
          have hnext := @ih (attempt + 1) { later with time := later.time + removalPoll } htime
            hlisted'
          refine hnext.mono fun result _ hspec => ?_
          rw [hspec]
          simp only [Nat.add_assoc, Nat.add_comm 1 left]
      · rw [if_neg (by omega)]
        refine Returns.pure ⟨fun _ => ⟨attempt, by omega, hgone⟩, fun _ => rfl⟩

/-- A prompt package manager: the removal passes exactly if the attempts last until the target is
gone. -/
theorem cleanupTarget_instant {after : Nat} (hremoved : inventory.removal = .ok ())
    (hinstant : ∀ time, inventory.delay time = 0) (hvanishes : inventory.Vanishes dnpName after)
    (htimeout : after + removalPoll < timeout) :
    Returns inventory.script
      (fun result _ => result.status = .passed ↔
        ∃ attempt, attempt < removalAttempts timeout ∧ after ≤ attempt * removalPoll)
      (cleanupTarget dnpName timeout) {} := by
  refine Returns.perform rfl ?_
  rw [hremoved]
  have hstarted : 0 + inventory.removalTime = inventory.removalTime :=
    Nat.zero_add _
  show Returns _ _ (cleanupTarget.verify dnpName timeout)
    ({ time := 0 + inventory.removalTime } : Course)
  rw [hstarted]
  refine Returns.perform rfl ?_
  have hstart : inventory.removalTime = inventory.removalTime + 0 * removalPoll := by simp
  have hloop := @verifyRemoval_instant _ _ _ _ hinstant hvanishes htimeout
    (removalAttempts timeout) 0 { time := inventory.removalTime } hstart
    (fun _ hearlier => by omega)
  simpa only [Nat.zero_add] using hloop

end Runner

end PackageHarness
