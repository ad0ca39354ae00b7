/-
# PackageHarness.Sequence.Prefix — cutting a text at a byte limit.

A text is cut at a byte offset, but only offsets between two characters leave text on both sides.
`LongestPrefix s p b` says that `p` is what remains of `s` when as much as possible is kept within
`b` bytes; the remaining text is determined by `s` and `b`.

Nothing in this module mentions a particular program.
-/
import Mathlib.Data.String.Basic
import Mathlib.Order.Bounds.Basic

namespace PackageHarness.Sequence

variable {s p q u : String} {b : Nat}

/-- `p` begins `s`, has at most `b` bytes, and no longer beginning of `s` does. -/
structure LongestPrefix (s p : String) (b : Nat) : Prop where
  begins : ∃ u, s = p ++ u
  fits : p.utf8ByteSize ≤ b
  longest : ∀ q u, s = q ++ u → q.utf8ByteSize ≤ b → q.utf8ByteSize ≤ p.utf8ByteSize

/-! ## Offsets between two characters -/

theorem isValid_size_of_append (p u : String) : String.Pos.Raw.IsValid (p ++ u) ⟨p.utf8ByteSize⟩ := by
  rw [String.Pos.Raw.isValid_iff_exists_append]
  exact ⟨p, u, rfl, rfl⟩

/-- The text before an offset between two characters, as the bytes up to that offset. -/
theorem extract_zero_append (p u : String) :
    String.Pos.Raw.extract (p ++ u) 0 ⟨p.utf8ByteSize⟩ = p := by
  have h := String.extract_of_valid [] p.toList u.toList
  rw [List.nil_append, String.ofList_append, String.ofList_toList, String.ofList_toList,
    String.utf8Len_nil, Nat.zero_add, String.utf8Len_toList] at h
  exact h

theorem extract_begins (h : String.Pos.Raw.IsValid s ⟨b⟩) :
    (∃ u, s = String.Pos.Raw.extract s 0 ⟨b⟩ ++ u) ∧
      (String.Pos.Raw.extract s 0 ⟨b⟩).utf8ByteSize = b := by
  obtain ⟨p, u, rfl, hb⟩ := String.Pos.Raw.isValid_iff_exists_append.mp h
  obtain rfl : b = p.utf8ByteSize := congrArg String.Pos.Raw.byteIdx hb
  rw [extract_zero_append]
  exact ⟨⟨u, rfl⟩, rfl⟩

/-! ## The longest prefix -/

/-- The greatest offset between two characters, within the limit, cuts off the longest prefix. -/
theorem LongestPrefix.of_isGreatest {n : Nat}
    (h : IsGreatest {j | j ≤ b ∧ String.Pos.Raw.IsValid s ⟨j⟩} n) :
    LongestPrefix s (String.Pos.Raw.extract s 0 ⟨n⟩) b := by
  obtain ⟨⟨hle, hvalid⟩, hupper⟩ := h
  obtain ⟨hbegins, hsize⟩ := extract_begins hvalid
  refine ⟨hbegins, ?_, ?_⟩
  · rw [hsize]
    exact hle
  · intro q u hs hq
    rw [hsize]
    apply hupper
    rw [hs]
    exact ⟨hq, isValid_size_of_append q u⟩

theorem eq_of_append_of_size {v : String} (h : p ++ u = q ++ v)
    (hsize : p.utf8ByteSize = q.utf8ByteSize) : p = q := by
  have hp := extract_zero_append p u
  rw [h, hsize, extract_zero_append] at hp
  exact hp.symm

/-- Of two beginnings of one text, the shorter begins the longer. -/
theorem begins_of_size_le {v : String} (h : p ++ u = q ++ v)
    (hsize : q.utf8ByteSize ≤ p.utf8ByteSize) : ∃ w, p = q ++ w := by
  have hlists : p.toList ++ u.toList = q.toList ++ v.toList := by
    rw [← String.toList_append, h, String.toList_append]
  rcases List.prefix_or_prefix_of_prefix (List.prefix_append p.toList u.toList)
    (hlists ▸ List.prefix_append q.toList v.toList) with hshort | hlong
  · obtain ⟨w, hw⟩ := hshort
    have hq : q = p ++ String.ofList w := by
      rw [← String.toList_inj, String.toList_append, String.toList_ofList, hw]
    have hempty : (String.ofList w).utf8ByteSize = 0 := by
      rw [hq, String.utf8ByteSize_append] at hsize
      omega
    rw [String.utf8ByteSize_eq_zero_iff.mp hempty, String.append_empty] at hq
    exact ⟨"", by rw [hq, String.append_empty]⟩
  · obtain ⟨w, hw⟩ := hlong
    refine ⟨String.ofList w, ?_⟩
    rw [← String.toList_inj, String.toList_append, String.toList_ofList, hw]

/-- Everything within the limit that begins the text begins what is kept of it. -/
theorem LongestPrefix.of_begins {v : String} (hp : LongestPrefix s p b) (hs : s = q ++ v)
    (hq : q.utf8ByteSize ≤ b) : ∃ w, p = q ++ w := by
  obtain ⟨u, hu⟩ := hp.begins
  exact begins_of_size_le (hu.symm.trans hs) (hp.longest q v hs hq)

theorem LongestPrefix.unique (hp : LongestPrefix s p b) (hq : LongestPrefix s q b) : p = q := by
  obtain ⟨u, hu⟩ := hp.begins
  obtain ⟨v, hv⟩ := hq.begins
  have hle := hq.longest p u hu hp.fits
  have hge := hp.longest q v hv hq.fits
  have hboth : p ++ u = q ++ v := by rw [← hu, ← hv]
  exact eq_of_append_of_size hboth (by omega)

end PackageHarness.Sequence
