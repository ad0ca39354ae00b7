/-
# PackageHarness.Text.Kept — what a rewriting keeps of a text.

A text in which no match begins stays as it is, a word whose ends are not those of the replacement
comes from the text, and a character that is not replaced is there as often as before.

Nothing in this module mentions a particular program.
-/
import PackageHarness.Text.Seams

namespace PackageHarness.Text
namespace Rewrite

variable {w : Rewrite} {prev : Option Char} {c d e : Char} {s t u x y z : List Char} {skip : Nat}

/-- A text is written as it stands if no match begins at any of its places. -/
theorem written_quiet (hu : ∀ t, t ≠ [] → t <:+ u → ∀ prev, w.first prev (t ++ s) = none) :
    w.written 0 prev u s = u ∧ w.overrun 0 prev u s = 0 := by
  induction u generalizing prev with
  | nil => exact ⟨rfl, rfl⟩
  | cons c u ih =>
      have hnone := hu (c :: u) (List.cons_ne_nil c u) (List.suffix_refl _) prev
      have hlater : w.written 0 (some c) u s = u ∧ w.overrun 0 (some c) u s = 0 := ih fun t hne ht =>
        hu t hne (ht.trans (List.suffix_cons c u))
      rw [written, overrun, hnone]
      exact ⟨congrArg (c :: ·) hlater.1, hlater.2⟩

theorem replaceFrom_quiet (hu : ∀ t, t ≠ [] → t <:+ u → ∀ prev, w.first prev (t ++ s) = none) :
    w.replaceFrom 0 prev (u ++ s) = u ++ w.replaceFrom 0 (lastOf prev u) s := by
  obtain ⟨hwritten, hstop⟩ : w.written 0 prev u s = u ∧ w.overrun 0 prev u s = 0 := written_quiet hu
  rw [replaceFrom_append, hwritten, hstop]

/-! ## Words -/

/-- A word that does not begin with a character of the replacement and has none of its first. -/
structure Foreign (w : Rewrite) (y : List Char) : Prop where
  begins : ∃ e z, y = e :: z ∧ e ∉ w.replacement
  avoids : ∃ d z, w.replacement = d :: z ∧ d ∉ y

/-- A word that begins outside a text stands in what follows it. -/
theorem infix_of_append (he : e ∉ x) (h : e :: y <:+: x ++ s) : e :: y <:+: s := by
  rcases List.infix_append_iff.mp h with hin | hin | ⟨a, b, hab, ha, hb⟩
  · exact absurd (hin.subset List.mem_cons_self) he
  · exact hin
  · cases a with
    | nil =>
        rw [List.nil_append] at hab
        rw [hab]
        exact hb.isInfix
    | cons f a =>
        rw [(List.cons_eq_cons.mp hab).1] at he
        exact absurd (ha.subset List.mem_cons_self) he

/-- A beginning without the first character of the replacement is a beginning of the text. -/
theorem prefix_of_replaceFrom (hw : w.replacement = d :: z) (hd : d ∉ y)
    (h : y <+: w.replaceFrom 0 prev s) : y <+: s := by
  induction s generalizing prev y with
  | nil => exact h
  | cons c s ih =>
      cases hfirst : w.first prev (c :: s) with
      | none =>
          rw [replaceFrom_none hfirst] at h
          rcases List.prefix_cons_iff.mp h with rfl | ⟨y, rfl, hy⟩
          · exact List.nil_prefix
          · exact List.cons_prefix_cons.mpr ⟨rfl, ih (fun hin => hd (List.mem_cons_of_mem c hin)) hy⟩
      | some found =>
          rw [replaceFrom_found hfirst, hw, List.append_assoc] at h
          have hkept : y <+: found.kept := by
            rcases Nat.le_total y.length found.kept.length with hle | hle
            · exact List.prefix_of_prefix_length_le h (List.prefix_append _ _) hle
            · obtain ⟨b, rfl⟩ := List.prefix_of_prefix_length_le (List.prefix_append _ _) h hle
              rw [List.prefix_append_right_inj, List.cons_append] at h
              rcases List.prefix_cons_iff.mp h with rfl | ⟨b, rfl, -⟩
              · exact ⟨[], by simp⟩
              · exact absurd (by simp) hd
          rw [first_split hfirst, List.append_assoc]
          exact hkept.trans (List.prefix_append _ _)

/-- A word that stands in the rewritten text stands in the text. -/
theorem infix_of_replaceFrom (hy : Foreign w y) (h : y <:+: w.replaceFrom skip prev s) : y <:+: s := by
  obtain ⟨⟨e, y, rfl, he⟩, ⟨d, z, hw, hd⟩⟩ := hy
  induction s generalizing skip prev with
  | nil => exact h
  | cons c s ih =>
      have hlater : ∀ {skip prev}, e :: y <:+: w.replaceFrom skip prev s → e :: y <:+: c :: s :=
        fun hin => (ih hin).trans (List.suffix_cons c s).isInfix
      cases skip with
      | succ skip => exact hlater h
      | zero =>
          rw [replaceFrom] at h
          split at h
          · next found hfound =>
              have hkept : found.kept <+: c :: s := by
                rw [first_split hfound, List.append_assoc]
                exact List.prefix_append _ _
              rw [List.append_assoc] at h
              rcases List.infix_append_iff.mp h with hin | hin | ⟨a, b, hab, ha, hb⟩
              · exact hin.trans hkept.isInfix
              · exact hlater (infix_of_append he hin)
              · rw [hw, List.cons_append] at hb
                rcases List.prefix_cons_iff.mp hb with rfl | ⟨b, rfl, -⟩
                · rw [List.append_nil] at hab
                  rw [hab]
                  exact ha.isInfix.trans hkept.isInfix
                · rw [hab] at hd
                  exact absurd (by simp) hd
          · rcases List.infix_cons_iff.mp h with hin | hin
            · rcases List.prefix_cons_iff.mp hin with hnil | ⟨y', hy', hin'⟩
              · cases hnil
              · obtain ⟨rfl, rfl⟩ := List.cons_eq_cons.mp hy'
                exact (List.cons_prefix_cons.mpr ⟨rfl, prefix_of_replaceFrom hw
                  (fun hmem => hd (List.mem_cons_of_mem _ hmem)) hin'⟩).isInfix
            · exact hlater hin

/-! ## Characters -/

/-- A character that no match drops and that is not in the replacement is there as often as before. -/
theorem count_replaceFrom (hfound : ∀ prev s found, w.first prev s = some found → c ∉ found.dropped)
    (hw : c ∉ w.replacement) (skip : Nat) (prev : Option Char) (s : List Char) :
    (w.replaceFrom skip prev s).count c = (s.drop skip).count c := by
  induction s generalizing skip prev with
  | nil => rw [replaceFrom, List.drop_nil]
  | cons d s ih =>
      cases skip with
      | succ skip => exact ih skip (some d)
      | zero =>
          cases hfirst : w.first prev (d :: s) with
          | none =>
              rw [replaceFrom_none hfirst, List.drop_zero, List.count_cons, List.count_cons, ih,
                List.drop_zero]
          | some found =>
              have hsplit := first_split hfirst
              have hbehind : s.drop (found.size - 1) = found.behind := by
                obtain ⟨n, hn⟩ := Nat.exists_eq_succ_of_ne_zero (Nat.ne_of_gt (first_size_pos hfirst))
                have hdrop : (d :: s).drop found.size = found.behind := by
                  rw [hsplit]
                  exact List.drop_left' List.length_append
                rw [hn] at hdrop ⊢
                exact hdrop
              rw [replaceFrom, hfirst]
              show (found.kept ++ w.replacement ++
                w.replaceFrom (found.size - 1) (some d) s).count c = _
              rw [List.count_append, List.count_append, ih, hbehind, List.drop_zero, hsplit,
                List.count_append, List.count_append, List.count_eq_zero_of_not_mem hw,
                List.count_eq_zero_of_not_mem (hfound prev _ found hfirst)]

end Rewrite
end PackageHarness.Text
