/-
# PackageHarness.Sequence.Streak — the trailing streak of a labelled sequence.

A sequence carries a label at some of its places. `Steady label n m` says that the last `m` of its
first `n` places are labelled alike; the longest such stretch is the trailing streak. `streak`
computes it from one place to the next, looking at two neighbouring labels only, which is all that
code that watches the sequence go by can do.

Nothing in this module mentions a particular program.
-/
import Mathlib.Order.Bounds.Basic

namespace PackageHarness.Sequence

variable {β : Type} {label : Nat → Option β} {n m : Nat}

/-- The last `m` of the first `n` places are labelled, and all alike. -/
def Steady (label : Nat → Option β) (n m : Nat) : Prop :=
  m ≤ n ∧ ∀ j, n - m ≤ j → j < n → (label j).isSome ∧ label j = label (n - 1)

/-- The length of the trailing streak, from one place to the next. -/
def streak [DecidableEq β] (label : Nat → Option β) : Nat → Nat
  | 0 => 0
  | n + 1 =>
      if (label n).isSome then
        if label (n - 1) = label n then streak label n + 1 else 1
      else 0

theorem Steady.zero : Steady label n 0 := by
  refine ⟨Nat.zero_le n, ?_⟩
  intro j hlow hhigh
  omega

/-- A stretch that ends at the next place continues one that ended here, or starts afresh. -/
theorem steady_succ :
    Steady label (n + 1) (m + 1) ↔
      (label n).isSome ∧ (m = 0 ∨ label (n - 1) = label n ∧ Steady label n m) := by
  constructor
  · rintro ⟨hle, hall⟩
    refine ⟨(hall n (by omega) (by omega)).1, ?_⟩
    rcases Nat.eq_zero_or_pos m with hzero | hpos
    · exact Or.inl hzero
    · have hlast : label (n - 1) = label n := (hall (n - 1) (by omega) (by omega)).2
      refine Or.inr ⟨hlast, by omega, ?_⟩
      intro j hlow hhigh
      have hj := hall j (by omega) (by omega)
      rw [hlast]
      exact hj
  · rintro ⟨hsome, hzero | ⟨hlast, hle, hall⟩⟩
    · refine ⟨by omega, ?_⟩
      intro j hlow hhigh
      have hj : j = n := by omega
      rw [hj]
      exact ⟨hsome, rfl⟩
    · refine ⟨by omega, ?_⟩
      intro j hlow hhigh
      rcases Nat.lt_or_ge j n with hbefore | hafter
      · have hj := hall j (by omega) hbefore
        rw [hlast] at hj
        exact hj
      · have hj : j = n := by omega
        rw [hj]
        exact ⟨hsome, rfl⟩

/-- A shorter stretch with the same end. -/
theorem Steady.shorten {k : Nat} (h : Steady label n m) (hk : k ≤ m) : Steady label n k := by
  refine ⟨hk.trans h.1, ?_⟩
  intro j hlow hhigh
  exact h.2 j (by omega) hhigh

section Computed

variable [DecidableEq β]

theorem steady_streak (n : Nat) : Steady label n (streak label n) := by
  induction n with
  | zero => exact Steady.zero
  | succ n ih =>
      rw [streak]
      split
      · next hsome =>
          split
          · next hlast => exact steady_succ.mpr ⟨hsome, Or.inr ⟨hlast, ih⟩⟩
          · exact steady_succ.mpr ⟨hsome, Or.inl rfl⟩
      · exact Steady.zero

theorem Steady.le_streak (h : Steady label n m) : m ≤ streak label n := by
  induction n generalizing m with
  | zero => exact h.1
  | succ n ih =>
      cases m with
      | zero => exact Nat.zero_le _
      | succ m =>
          obtain ⟨hsome, hcases⟩ := steady_succ.mp h
          rw [streak, if_pos hsome]
          rcases hcases with hzero | ⟨hlast, hbefore⟩
          · split <;> omega
          · rw [if_pos hlast]
            have hle := ih hbefore
            omega

/-- What is computed place by place is the longest stretch there is. -/
theorem streak_greatest (n : Nat) : IsGreatest {m | Steady label n m} (streak label n) :=
  ⟨steady_streak n, fun _ h => Steady.le_streak h⟩

theorem le_streak_iff : m ≤ streak label n ↔ Steady label n m :=
  ⟨fun h => (steady_streak n).shorten h, Steady.le_streak⟩

theorem streak_succ_le (n : Nat) : streak label (n + 1) ≤ streak label n + 1 := by
  rw [streak]
  split
  · split <;> omega
  · omega

end Computed

end PackageHarness.Sequence
