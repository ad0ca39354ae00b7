/-
# PackageHarness.Text.Masks — the text with a mark for every character that is dropped.

Where `written` gives what a rewriting writes, `masked` keeps the text and its length: a dropped
character is covered by a mark, every other one stays in its place.

Nothing in this module mentions a particular program.
-/
import PackageHarness.Text.Seams

namespace PackageHarness.Text
namespace Rewrite

/-- The text `u` before `s`, with `mark` in the place of every character that is dropped; the first
`skip` characters belong to a match that is already read. -/
def masked (w : Rewrite) (mark : Char) : (skip : Nat) → (prev : Option Char) → (u s : List Char) →
    List Char
  | _, _, [], _ => []
  | skip + 1, _, c :: u, s => masked w mark skip (some c) u s
  | 0, prev, c :: u, s =>
      match w.first prev (c :: u ++ s) with
      | some found => (found.kept ++ List.replicate found.dropped.length mark).take (u.length + 1) ++
          masked w mark (found.size - 1) (some c) u s
      | none => c :: masked w mark 0 (some c) u s

variable {w : Rewrite} {mark c : Char} {prev : Option Char} {s u x : List Char} {skip : Nat}
  {found : Found}

theorem masked_of_length_le (w : Rewrite) (mark : Char) (prev : Option Char) (u s : List Char)
    (h : u.length ≤ skip) : w.masked mark skip prev u s = [] := by
  induction u generalizing skip prev with
  | nil => rfl
  | cons c u ih =>
      rw [List.length_cons] at h
      cases skip with
      | zero => omega
      | succ skip => exact ih (some c) (by omega)

theorem masked_skip (w : Rewrite) (mark : Char) (prev : Option Char) (x u s : List Char) :
    w.masked mark x.length prev (x ++ u) s = w.masked mark 0 (lastOf prev x) u s := by
  induction x generalizing prev with
  | nil => rfl
  | cons c x ih => exact ih (some c)

/-- Where no match begins, the text is written as it stands, and nothing is masked. -/
theorem written_idle_append (hu : ∀ c ∈ u, ∀ prev s, w.first prev (c :: s) = none)
    (prev : Option Char) (v s : List Char) :
    w.written 0 prev (u ++ v) s = u ++ w.written 0 (lastOf prev u) v s := by
  obtain ⟨hwritten, hstop⟩ := written_idle hu prev (v ++ s)
  rw [written_append, hwritten, hstop]


theorem masked_idle_append (mark : Char) (hu : ∀ c ∈ u, ∀ prev s, w.first prev (c :: s) = none)
    (prev : Option Char) (v s : List Char) :
    w.masked mark 0 prev (u ++ v) s = u ++ w.masked mark 0 (lastOf prev u) v s := by
  induction u generalizing prev with
  | nil => rfl
  | cons c u ih =>
      have hnone := hu c List.mem_cons_self prev (u ++ v ++ s)
      rw [List.cons_append, masked, List.cons_append, hnone]
      exact congrArg (c :: ·) (ih (fun d hd => hu d (List.mem_cons_of_mem c hd)) (some c))

/-! ## At a match -/

/-- A match that ends within the beginning of a text. -/
theorem first_inside (h : w.first prev (u ++ s) = some found) (hshort : found.size ≤ u.length) :
    ∃ v, u = found.kept ++ found.dropped ++ v ∧ found.behind = v ++ s := by
  have hlength : (found.kept ++ found.dropped).length ≤ u.length := by
    rw [List.length_append]
    exact hshort
  rcases List.append_eq_append_iff.mp (first_split h) with ⟨v, hv, hs⟩ | ⟨v, hv, hbehind⟩
  · rw [hv, List.length_append] at hlength
    have hnil : v = [] := List.eq_nil_of_length_eq_zero (by omega)
    rw [hnil, List.append_nil] at hv
    rw [hnil, List.nil_append] at hs
    exact ⟨[], by rw [hv, List.append_nil], hs.symm⟩
  · exact ⟨v, hv, hbehind⟩

theorem first_cons (h : w.first prev s = some found) (hx : x.length = found.size) :
    ∃ c y, x = c :: y ∧ found.size - 1 = y.length := by
  have hpos := first_size_pos h
  cases x with
  | nil =>
      rw [List.length_nil] at hx
      omega
  | cons c x =>
      refine ⟨c, x, rfl, ?_⟩
      rw [← hx]
      rfl

theorem written_found (h : w.first prev (x ++ u ++ s) = some found) (hx : x.length = found.size) :
    w.written 0 prev (x ++ u) s =
      found.kept ++ w.replacement ++ w.written 0 (lastOf prev x) u s := by
  obtain ⟨c, y, rfl, hsize⟩ := first_cons h hx
  have hhere : w.first prev (c :: (y ++ u) ++ s) = some found := h
  rw [List.cons_append, written, hhere]
  show found.kept ++ w.replacement ++ w.written (found.size - 1) (some c) (y ++ u) s = _
  rw [hsize, written_skip]
  rfl

theorem masked_found (h : w.first prev (x ++ u ++ s) = some found) (hx : x.length = found.size) :
    w.masked mark 0 prev (x ++ u) s = found.kept ++ List.replicate found.dropped.length mark ++
      w.masked mark 0 (lastOf prev x) u s := by
  obtain ⟨c, y, rfl, hsize⟩ := first_cons h hx
  have hhere : w.first prev (c :: (y ++ u) ++ s) = some found := h
  have hwhole : (found.kept ++ List.replicate found.dropped.length mark).length ≤
      (y ++ u).length + 1 := by
    rw [Found.size, List.length_cons] at hx
    rw [List.length_append, List.length_replicate, List.length_append, ← hx]
    omega
  rw [List.cons_append, masked, hhere]
  show List.take _ _ ++ w.masked mark (found.size - 1) (some c) (y ++ u) s = _
  rw [List.take_of_length_le hwhole, hsize, masked_skip]
  rfl

theorem overrun_found (h : w.first prev (x ++ u ++ s) = some found) (hx : x.length = found.size) :
    w.overrun 0 prev (x ++ u) s = w.overrun 0 (lastOf prev x) u s := by
  obtain ⟨c, y, rfl, hsize⟩ := first_cons h hx
  have hhere : w.first prev (c :: (y ++ u) ++ s) = some found := h
  rw [List.cons_append, overrun, hhere]
  show w.overrun (found.size - 1) (some c) (y ++ u) s = _
  rw [hsize, overrun_skip]
  rfl

/-- A match that takes the rest of the text, and perhaps more. -/
theorem written_through (h : w.first prev (u ++ s) = some found) (hu : u ≠ [])
    (hlong : u.length ≤ found.size) : w.written 0 prev u s = found.kept ++ w.replacement := by
  cases u with
  | nil => exact absurd rfl hu
  | cons c u =>
      rw [List.length_cons] at hlong
      rw [written, h]
      show found.kept ++ w.replacement ++ w.written (found.size - 1) (some c) u s = _
      rw [written_of_length_le w (some c) u s (by omega), List.append_nil]

theorem masked_through (h : w.first prev (u ++ s) = some found) (hu : u ≠ [])
    (hlong : u.length ≤ found.size) : w.masked mark 0 prev u s =
      (found.kept ++ List.replicate found.dropped.length mark).take u.length := by
  cases u with
  | nil => exact absurd rfl hu
  | cons c u =>
      rw [List.length_cons] at hlong
      rw [masked, h]
      show List.take _ _ ++ w.masked mark (found.size - 1) (some c) u s = _
      rw [masked_of_length_le w mark (some c) u s (by omega), List.append_nil]
      rfl

theorem overrun_through (h : w.first prev (u ++ s) = some found) (hu : u ≠ [])
    (hlong : u.length ≤ found.size) : w.overrun 0 prev u s = found.size - u.length := by
  cases u with
  | nil => exact absurd rfl hu
  | cons c u =>
      rw [List.length_cons] at hlong
      rw [overrun, h]
      show w.overrun (found.size - 1) (some c) u s = _
      rw [overrun_of_length_le w (some c) u s (by omega), List.length_cons]
      omega

end Rewrite
end PackageHarness.Text
