/-
# PackageHarness.Guarantees.Truncation — what cutting a text to a byte limit leaves.

`truncateUtf8` looks backwards for an offset between two characters. The search finds the greatest
one within its limit, so the text that is kept is the longest prefix that leaves room for the
truncation suffix; a text cut once is within the limit and is not cut again.
-/
import PackageHarness.Analysis.Redaction
import PackageHarness.Sequence.Prefix

namespace PackageHarness.Redaction

open Sequence

variable {s : String} {b m : Nat}

/-! ## The backward search -/

theorem isCharBoundary_iff : isCharBoundary s b = true ↔ String.Pos.Raw.IsValid s ⟨b⟩ :=
  String.Pos.Raw.isValid_eq_true_iff

theorem isCharBoundary_zero : isCharBoundary s 0 = true := by
  rw [isCharBoundary_iff]
  exact String.Pos.Raw.isValid_zero

theorem floorBoundary_isGreatest (s : String) (b : Nat) :
    IsGreatest {j | j ≤ b ∧ String.Pos.Raw.IsValid s ⟨j⟩} (floorBoundary s b) := by
  induction b with
  | zero =>
      refine ⟨⟨Nat.le_refl 0, isCharBoundary_iff.mp isCharBoundary_zero⟩, ?_⟩
      intro j hj
      exact hj.1
  | succ b ih =>
      rw [floorBoundary]
      split
      case isTrue h =>
        refine ⟨⟨Nat.le_refl _, isCharBoundary_iff.mp h⟩, ?_⟩
        intro j hj
        exact hj.1
      case isFalse h =>
        refine ⟨⟨Nat.le_succ_of_le ih.1.1, ih.1.2⟩, ?_⟩
        -- the offset that was tried is no boundary, so every boundary lies below it
        intro j hj
        have hne : j ≠ b + 1 := by
          rintro rfl
          exact h (isCharBoundary_iff.mpr hj.2)
        have hlt : j ≤ b := by
          have hle : j ≤ b + 1 := hj.1
          omega
        exact ih.2 ⟨hlt, hj.2⟩

/-! ## The cut -/

/-- What is appended to a text that was cut to `m` bytes. -/
def truncationMark (m : Nat) : String :=
  if TRUNCATION_SUFFIX.utf8ByteSize ≤ m then TRUNCATION_SUFFIX else ""

/-- Where a text that is too long for `m` bytes is cut. -/
def cutOffset (s : String) (m : Nat) : Nat :=
  floorBoundary s (m - (truncationMark m).utf8ByteSize)

theorem truncationMark_size_le (m : Nat) : (truncationMark m).utf8ByteSize ≤ m := by
  rw [truncationMark]
  split
  case isTrue h => exact h
  case isFalse => exact Nat.zero_le m

theorem truncateUtf8_of_le (h : s.utf8ByteSize ≤ m) : truncateUtf8 s m = s := if_pos h

theorem truncateUtf8_of_lt (h : m < s.utf8ByteSize) :
    truncateUtf8 s m = String.Pos.Raw.extract s 0 ⟨cutOffset s m⟩ ++ truncationMark m :=
  if_neg (Nat.not_le_of_lt h)

theorem cut_longestPrefix (s : String) (m : Nat) :
    LongestPrefix s (String.Pos.Raw.extract s 0 ⟨cutOffset s m⟩)
      (m - (truncationMark m).utf8ByteSize) :=
  .of_isGreatest (floorBoundary_isGreatest s _)

theorem truncateUtf8_size_le (s : String) (m : Nat) : (truncateUtf8 s m).utf8ByteSize ≤ m := by
  by_cases h : s.utf8ByteSize ≤ m
  · rw [truncateUtf8_of_le h]
    exact h
  · rw [truncateUtf8_of_lt (by omega), String.utf8ByteSize_append]
    have hfits := (cut_longestPrefix s m).fits
    have hmark := truncationMark_size_le m
    omega

theorem truncateUtf8_eq_self_iff (s : String) (m : Nat) :
    truncateUtf8 s m = s ↔ s.utf8ByteSize ≤ m := by
  constructor
  · intro h
    rw [← h]
    exact truncateUtf8_size_le s m
  · exact truncateUtf8_of_le

theorem cutOffset_isCharBoundary (s : String) (m : Nat) : isCharBoundary s (cutOffset s m) = true :=
  isCharBoundary_iff.mpr (floorBoundary_isGreatest s _).1.2

theorem cutOffset_le_size (s : String) (m : Nat) : cutOffset s m ≤ s.utf8ByteSize := by
  have h := isCharBoundary_iff.mp (cutOffset_isCharBoundary s m)
  exact h.le_rawEndPos

/-- Every text and every limit: what is cut is within the limit and valid UTF-8, a text is unchanged
exactly when it is short enough, any other keeps its longest prefix that leaves room for the mark,
the slice is taken at a character boundary within the text, and a second cut changes nothing. -/
theorem truncation_exact (s : String) (m : Nat) :
    (truncateUtf8 s m).utf8ByteSize ≤ m ∧
      ByteArray.IsValidUTF8 (truncateUtf8 s m).toByteArray ∧
      (truncateUtf8 s m = s ↔ s.utf8ByteSize ≤ m) ∧
      (m < s.utf8ByteSize →
        ∃ p, truncateUtf8 s m =
              p ++ (if TRUNCATION_SUFFIX.utf8ByteSize ≤ m then TRUNCATION_SUFFIX else "") ∧
          LongestPrefix s p
            (m - (if TRUNCATION_SUFFIX.utf8ByteSize ≤ m
              then TRUNCATION_SUFFIX else "").utf8ByteSize) ∧
          p.utf8ByteSize = cutOffset s m) ∧
      (isCharBoundary s (cutOffset s m) = true ∧ cutOffset s m ≤ s.utf8ByteSize) ∧
      truncateUtf8 (truncateUtf8 s m) m = truncateUtf8 s m := by
  refine ⟨truncateUtf8_size_le s m, String.isValidUTF8 _, truncateUtf8_eq_self_iff s m, ?_,
    ⟨cutOffset_isCharBoundary s m, cutOffset_le_size s m⟩,
    truncateUtf8_of_le (truncateUtf8_size_le s m)⟩
  intro h
  exact ⟨_, truncateUtf8_of_lt h, cut_longestPrefix s m,
    (extract_begins (isCharBoundary_iff.mp (cutOffset_isCharBoundary s m))).2⟩

end PackageHarness.Redaction
