/-
# PackageHarness.Text.Seams — rewriting a text that is put together from two.

What is written while the first part is read depends on the second part only as far as a match at
one of its places does. Two second parts that no such match tells apart lead to the same writing.
If a match runs over the seam, what is written ends with the replacement.

Nothing in this module mentions a particular program.
-/
import PackageHarness.Text.Rewriting

namespace PackageHarness.Text
namespace Rewrite

variable {w : Rewrite} {prev prev' : Option Char} {c d : Char} {u s s' x y : List Char}
  {skip skip' : Nat}

/-! ## One text before two others -/

/-- The texts `t ++ s` and `t ++ s'` have the same match at their start, as far as `t` shows it. -/
def Agree (w : Rewrite) (prev : Option Char) (t s s' : List Char) : Prop :=
  (w.first prev (t ++ s) = none ∧ w.first prev (t ++ s') = none) ∨
    ∃ found found', w.first prev (t ++ s) = some found ∧ w.first prev (t ++ s') = some found' ∧
      found.kept = found'.kept ∧
      (found.size = found'.size ∨ t.length ≤ found.size ∧ t.length ≤ found'.size)

/-- The same, and a match ends behind `t` in both or in none. -/
def AgreeEnds (w : Rewrite) (prev : Option Char) (t s s' : List Char) : Prop :=
  (w.first prev (t ++ s) = none ∧ w.first prev (t ++ s') = none) ∨
    ∃ found found', w.first prev (t ++ s) = some found ∧ w.first prev (t ++ s') = some found' ∧
      found.kept = found'.kept ∧
      (found.size = found'.size ∨ t.length < found.size ∧ t.length < found'.size)

theorem AgreeEnds.agree {t : List Char} (h : AgreeEnds w prev t s s') : Agree w prev t s s' := by
  rcases h with hnone | ⟨found, found', hfound, hfound', hkept, hsize⟩
  · exact Or.inl hnone
  · exact Or.inr ⟨found, found', hfound, hfound', hkept,
      hsize.imp_right fun h => ⟨Nat.le_of_lt h.1, Nat.le_of_lt h.2⟩⟩

theorem written_agree (h : ∀ x t, t ≠ [] → x ++ t = u → Agree w (lastOf prev x) t s s')
    (hskip : skip = skip' ∨ u.length ≤ skip ∧ u.length ≤ skip') :
    w.written skip prev u s = w.written skip' prev u s' := by
  induction u generalizing skip skip' prev with
  | nil => rfl
  | cons c u ih =>
      have hlater : ∀ x t, t ≠ [] → x ++ t = u → Agree w (lastOf (some c) x) t s s' :=
        fun x t hne ht => h (c :: x) t hne (congrArg (c :: ·) ht)
      rcases hskip with rfl | ⟨hlong, hlong'⟩
      · cases skip with
        | succ skip => exact ih hlater (Or.inl rfl)
        | zero =>
            rw [written, written]
            have hhere : Agree w prev (c :: u) s s' := h [] (c :: u) (List.cons_ne_nil c u) rfl
            rcases hhere with ⟨hnone, hnone'⟩ | ⟨found, found', hfound, hfound', hkept, hsize⟩
            · rw [hnone, hnone']
              show c :: _ = c :: _
              rw [ih hlater (Or.inl rfl)]
            · rw [hfound, hfound']
              show found.kept ++ _ ++ _ = found'.kept ++ _ ++ _
              rw [hkept, ih hlater]
              rw [List.length_cons] at hsize
              omega
      · rw [written_of_length_le w prev (c :: u) s hlong,
          written_of_length_le w prev (c :: u) s' hlong']

theorem overrun_agree (h : ∀ x t, t ≠ [] → x ++ t = u → AgreeEnds w (lastOf prev x) t s s')
    (hskip : skip = skip' ∨ u.length < skip ∧ u.length < skip') :
    w.overrun skip prev u s = 0 ↔ w.overrun skip' prev u s' = 0 := by
  induction u generalizing skip skip' prev with
  | nil =>
      rw [overrun, overrun]
      rw [List.length_nil] at hskip
      omega
  | cons c u ih =>
      have hlater : ∀ x t, t ≠ [] → x ++ t = u → AgreeEnds w (lastOf (some c) x) t s s' :=
        fun x t hne ht => h (c :: x) t hne (congrArg (c :: ·) ht)
      rcases hskip with rfl | ⟨hlong, hlong'⟩
      · cases skip with
        | succ skip => exact ih hlater (Or.inl rfl)
        | zero =>
            rw [overrun, overrun]
            have hhere : AgreeEnds w prev (c :: u) s s' := h [] (c :: u) (List.cons_ne_nil c u) rfl
            rcases hhere with ⟨hnone, hnone'⟩ | ⟨found, found', hfound, hfound', -, hsize⟩
            · rw [hnone, hnone']
              exact ih hlater (Or.inl rfl)
            · rw [hfound, hfound']
              refine ih hlater ?_
              rw [List.length_cons] at hsize
              omega
      · rw [overrun_of_length_le w prev (c :: u) s (by omega),
          overrun_of_length_le w prev (c :: u) s' (by omega)]
        omega

/-- If a match of the text ends behind it, there is a first place from which one does. -/
theorem exists_of_overrun (h : w.overrun skip prev u s ≠ 0) (hskip : skip ≤ u.length) :
    ∃ a t found, u = a ++ t ∧ t ≠ [] ∧ w.overrun skip prev a (t ++ s) = 0 ∧
      w.first (lastOf prev a) (t ++ s) = some found ∧ t.length < found.size := by
  induction u generalizing skip prev with
  | nil =>
      rw [overrun] at h
      exact absurd (Nat.le_zero.mp hskip) h
  | cons c u ih =>
      cases skip with
      | succ skip =>
          obtain ⟨a, t, found, rfl, hne, harrives, hfirst, hlong⟩ :=
            ih h (Nat.le_of_succ_le_succ hskip)
          exact ⟨c :: a, t, found, rfl, hne, harrives, hfirst, hlong⟩
      | zero =>
          rw [overrun] at h
          split at h
          · next found hfound =>
              by_cases hlong : (c :: u).length < found.size
              · exact ⟨[], c :: u, found, rfl, List.cons_ne_nil c u, rfl, hfound, hlong⟩
              · rw [List.length_cons] at hlong
                obtain ⟨a, t, found', rfl, hne, harrives, hfirst, hlong'⟩ := ih h (by omega)
                refine ⟨c :: a, t, found', rfl, hne, ?_, hfirst, hlong'⟩
                have htext : c :: a ++ (t ++ s) = c :: (a ++ t) ++ s := by simp
                rw [overrun, htext, hfound]
                exact harrives
          · next hnone =>
              obtain ⟨a, t, found', rfl, hne, harrives, hfirst, hlong'⟩ := ih h (Nat.zero_le _)
              refine ⟨c :: a, t, found', rfl, hne, ?_, hfirst, hlong'⟩
              have htext : c :: a ++ (t ++ s) = c :: (a ++ t) ++ s := by simp
              rw [overrun, htext, hnone]
              exact harrives

/-! ## What is written at a seam -/

theorem written_skip (w : Rewrite) (prev : Option Char) (x u s : List Char) :
    w.written x.length prev (x ++ u) s = w.written 0 (lastOf prev x) u s := by
  induction x generalizing prev with
  | nil => rfl
  | cons c x ih => exact ih (some c)

theorem overrun_skip (w : Rewrite) (prev : Option Char) (x u s : List Char) :
    w.overrun x.length prev (x ++ u) s = w.overrun 0 (lastOf prev x) u s := by
  induction x generalizing prev with
  | nil => rfl
  | cons c x ih => exact ih (some c)

/-- Where no match begins, the text is written as it stands. -/
theorem written_idle (hu : ∀ c ∈ u, ∀ prev s, w.first prev (c :: s) = none) (prev : Option Char)
    (s : List Char) : w.written 0 prev u s = u ∧ w.overrun 0 prev u s = 0 := by
  induction u generalizing prev with
  | nil => exact ⟨rfl, rfl⟩
  | cons c u ih =>
      have hnone := hu c List.mem_cons_self prev (u ++ s)
      obtain ⟨hwritten, hstop⟩ := ih (fun d hd => hu d (List.mem_cons_of_mem c hd)) (some c)
      rw [written, overrun, List.cons_append, hnone]
      exact ⟨congrArg (c :: ·) hwritten, hstop⟩

/-- The match that runs over the seam has already been replaced. -/
theorem written_of_overrun (h : w.overrun skip prev u s ≠ 0) (hskip : skip ≤ u.length) :
    ∃ x, w.written skip prev u s = x ++ w.replacement := by
  induction u generalizing skip prev with
  | nil => exact absurd (Nat.le_zero.mp hskip) h
  | cons c u ih =>
      cases skip with
      | succ skip => exact ih h (Nat.le_of_succ_le_succ hskip)
      | zero =>
          rw [overrun] at h
          rw [written]
          split at h
          · next found _ =>
              by_cases hlong : u.length ≤ found.size - 1
              · rw [written_of_length_le w (some c) u s hlong]
                exact ⟨found.kept, List.append_nil _⟩
              · obtain ⟨x, hx⟩ := ih h (by omega)
                rw [hx]
                exact ⟨found.kept ++ w.replacement ++ x, (List.append_assoc _ _ _).symm⟩
          · obtain ⟨x, hx⟩ := ih h (Nat.zero_le _)
            exact ⟨c :: x, congrArg (c :: ·) hx⟩

/-- A text in which the replacement is not seen is the text itself. -/
theorem written_eq_drop (hd : d ∈ w.replacement) (h : d ∉ w.written skip prev u s) :
    w.written skip prev u s = u.drop skip := by
  induction u generalizing skip prev with
  | nil => rw [written, List.drop_nil]
  | cons c u ih =>
      cases skip with
      | succ skip => exact ih h
      | zero =>
          rw [written] at h ⊢
          split at h
          · exact absurd (List.mem_append_left _ (List.mem_append_right _ hd)) h
          · exact congrArg (c :: ·) (ih fun hmem => h (List.mem_cons_of_mem c hmem))

/-- An end without the last character of the replacement is an end of the text. -/
theorem suffix_of_written {z : List Char} (hw : w.replacement = z ++ [d]) (hd : d ∉ y)
    (h : y <:+ w.written skip prev u s) : y <:+ u := by
  have hmem : d ∈ w.replacement := by
    rw [hw]
    simp
  induction u generalizing skip prev with
  | nil => exact h
  | cons c u ih =>
      cases skip with
      | succ skip => exact (ih h).trans (List.suffix_cons c u)
      | zero =>
          rw [written] at h
          split at h
          · next found hfound =>
              obtain ⟨x, hx⟩ := h
              rcases List.append_eq_append_iff.mp hx with ⟨e, he, rfl⟩ | ⟨e, -, he⟩
              · rcases List.eq_nil_or_concat e with rfl | ⟨e, f, rfl⟩
                · exact (ih (List.suffix_refl _)).trans (List.suffix_cons c u)
                · rw [List.concat_eq_append] at hd he
                  rw [hw, ← List.append_assoc, ← List.append_assoc] at he
                  have hlast := (List.append_inj' he rfl).2
                  rw [← List.singleton_inj.mp hlast] at hd
                  exact absurd (by simp) hd
              · exact (ih ⟨e, he.symm⟩).trans (List.suffix_cons c u)
          · next hnone =>
              rcases List.suffix_cons_iff.mp h with rfl | hlater
              · rw [written_eq_drop hmem fun hin => hd (List.mem_cons_of_mem c hin)]
                exact List.suffix_refl _
              · exact (ih hlater).trans (List.suffix_cons c u)

end Rewrite
end PackageHarness.Text
