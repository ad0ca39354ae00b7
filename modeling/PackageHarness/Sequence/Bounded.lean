/-
# PackageHarness.Sequence.Bounded — the first distinct items of a list, up to a bound.

`collect` goes through a list once, keeps the items whose key it has not met, and stops as soon as
it has kept as many as the bound allows. What such a pass can miss is an item that comes after the
bound has been reached: `exists_mem_collect_iff` says for which lists that happens.

Nothing in this module mentions a particular program.
-/
import Mathlib.Data.Finset.Card
import Mathlib.Data.Finset.Dedup
import Mathlib.Data.List.TakeWhile

namespace PackageHarness.Sequence

variable {α κ : Type} [DecidableEq κ] {key : α → κ} {bound : Nat} {kept xs ys : List α} {x : α}

/-- Adds the items of a list whose keys are new, until `bound` items have been kept. -/
def collect (key : α → κ) (bound : Nat) : (kept : List α) → List α → List α
  | kept, [] => kept
  | kept, x :: xs =>
      if key x ∈ kept.map key then collect key bound kept xs
      else if (kept ++ [x]).length = bound then kept ++ [x]
      else collect key bound (kept ++ [x]) xs

/-- How many keys a list has. -/
def distinct (key : α → κ) (xs : List α) : Nat := (xs.map key).toFinset.card

theorem length_concat_lt (hroom : kept.length < bound) (hopen : ¬ (kept ++ [x]).length = bound) :
    (kept ++ [x]).length < bound := by
  rw [List.length_append, List.length_singleton] at hopen ⊢
  omega

/-- Two lists in a row: the second is not looked at if the bound is reached in the first. -/
theorem collect_append (hroom : kept.length < bound) :
    collect key bound kept (xs ++ ys) =
      if (collect key bound kept xs).length = bound then collect key bound kept xs
      else collect key bound (collect key bound kept xs) ys := by
  induction xs generalizing kept with
  | nil =>
      show _ = if kept.length = bound then kept else _
      rw [if_neg (Nat.ne_of_lt hroom)]
      rfl
  | cons x xs ih =>
      simp only [List.cons_append, collect]
      split
      · exact ih hroom
      · split
        · rfl
        · next hopen => exact ih (length_concat_lt hroom hopen)

theorem length_collect_le (hroom : kept.length < bound) :
    (collect key bound kept xs).length ≤ bound := by
  induction xs generalizing kept with
  | nil => exact Nat.le_of_lt hroom
  | cons x xs ih =>
      rw [collect]
      split
      · exact ih hroom
      · split
        · next hfull => exact Nat.le_of_eq hfull
        · next hopen => exact ih (length_concat_lt hroom hopen)

/-- What has been kept stays. -/
theorem prefix_collect : kept <+: collect key bound kept xs := by
  induction xs generalizing kept with
  | nil => exact List.prefix_refl _
  | cons x xs ih =>
      rw [collect]
      split
      · exact ih
      · split
        · exact List.prefix_append _ _
        · exact (List.prefix_append _ _).trans ih

theorem mem_of_mem_collect (h : x ∈ collect key bound kept xs) : x ∈ kept ∨ x ∈ xs := by
  induction xs generalizing kept with
  | nil => exact Or.inl h
  | cons y xs ih =>
      have grow : x ∈ kept ++ [y] → x ∈ kept ∨ x ∈ y :: xs := by
        intro hmem
        rcases List.mem_append.mp hmem with hold | hnew
        · exact Or.inl hold
        · exact Or.inr (List.mem_cons.mpr (Or.inl (List.mem_singleton.mp hnew)))
      rw [collect] at h
      split at h
      · exact (ih h).imp_right (List.mem_cons_of_mem y)
      · split at h
        · exact grow h
        · rcases ih h with hmem | hlater
          · exact grow hmem
          · exact Or.inr (List.mem_cons_of_mem y hlater)

/-- A pass over something keeps something. -/
theorem collect_eq_nil_iff : collect key bound [] xs = [] ↔ xs = [] := by
  cases xs with
  | nil => exact ⟨fun _ => rfl, fun _ => rfl⟩
  | cons x xs =>
      refine ⟨?_, nofun⟩
      intro hnil
      rw [collect, if_neg (by simp)] at hnil
      split at hnil
      · cases hnil
      · have hprefix : [x] <+: collect key bound [x] xs := prefix_collect
        rw [show collect key bound [x] xs = [] from hnil] at hprefix
        exact absurd hprefix.length_le (by simp)

/-- No key is kept twice. -/
theorem nodup_collect (hkept : (kept.map key).Nodup) :
    ((collect key bound kept xs).map key).Nodup := by
  induction xs generalizing kept with
  | nil => exact hkept
  | cons x xs ih =>
      rw [collect]
      split
      · exact ih hkept
      · next hnew =>
          have hgrown : ((kept ++ [x]).map key).Nodup := by
            rw [List.map_append, List.map_singleton]
            exact List.nodup_append.mpr ⟨hkept, List.nodup_singleton _,
              fun a ha b hb => by
                rw [List.mem_singleton.mp hb]
                exact fun heq => hnew (heq ▸ ha)⟩
          split
          · exact hgrown
          · exact ih hgrown

/-- Short of the bound, every key has been kept. -/
theorem key_mem_collect (hopen : (collect key bound kept xs).length ≠ bound) (hx : x ∈ xs) :
    key x ∈ (collect key bound kept xs).map key := by
  induction xs generalizing kept with
  | nil => cases hx
  | cons y xs ih =>
      rw [collect] at hopen ⊢
      split at hopen
      · next hseen =>
          rw [if_pos hseen]
          rcases List.mem_cons.mp hx with rfl | hlater
          · exact (prefix_collect.map key).subset hseen
          · exact ih hopen hlater
      · next hnew =>
          rw [if_neg hnew]
          split at hopen
          · next hfull => exact absurd hfull hopen
          · next hroom =>
              rw [if_neg hroom]
              rcases List.mem_cons.mp hx with rfl | hlater
              · refine (prefix_collect.map key).subset ?_
                exact List.mem_map_of_mem (List.mem_append_right _ (List.mem_singleton_self _))
              · exact ih hopen hlater

/-- The bound is reached exactly in lists with that many keys. -/
theorem length_collect_eq_iff (hbound : 0 < bound) :
    (collect key bound [] xs).length = bound ↔ bound ≤ distinct key xs := by
  have hkeys : ((collect key bound [] xs).map key).toFinset.card =
      (collect key bound [] xs).length := by
    rw [List.toFinset_card_of_nodup (nodup_collect (by simp)), List.length_map]
  constructor
  · intro hfull
    rw [← hfull, ← hkeys]
    refine Finset.card_le_card ?_
    intro k hk
    obtain ⟨x, hx, rfl⟩ := List.mem_map.mp (List.mem_toFinset.mp hk)
    rcases mem_of_mem_collect hx with hnil | hmem
    · cases hnil
    · exact List.mem_toFinset.mpr (List.mem_map_of_mem hmem)
  · intro hmany
    by_contra hopen
    have hle : (collect key bound [] xs).length ≤ bound := length_collect_le hbound
    have hsubset : (xs.map key).toFinset ⊆ ((collect key bound [] xs).map key).toFinset := by
      intro k hk
      obtain ⟨x, hx, rfl⟩ := List.mem_map.mp (List.mem_toFinset.mp hk)
      exact List.mem_toFinset.mpr (key_mem_collect hopen hx)
    have hcard := Finset.card_le_card hsubset
    rw [hkeys] at hcard
    unfold distinct at hmany
    omega

/-- A property that the key decides is found among the kept items exactly if some item has it and
fewer keys than the bound come before the first that does. -/
theorem exists_mem_collect_iff {p : α → Bool} (hp : ∀ x y, key x = key y → p x = p y)
    (hbound : 0 < bound) :
    (∃ x ∈ collect key bound [] xs, p x = true) ↔
      (∃ x ∈ xs, p x = true) ∧ distinct key (xs.takeWhile fun x => !p x) < bound := by
  have hbefore : ∀ x ∈ xs.takeWhile fun x => !p x, p x = false := by
    intro x hx
    simpa using List.mem_takeWhile_imp hx
  have hplain : ∀ x ∈ collect key bound [] (xs.takeWhile fun x => !p x), p x = false := by
    intro x hx
    rcases mem_of_mem_collect hx with hnil | hmem
    · cases hnil
    · exact hbefore x hmem
  cases hrest : xs.dropWhile fun x => !p x with
  | nil =>
      have hall : xs.takeWhile (fun x => !p x) = xs := by
        have hsplit := List.takeWhile_append_dropWhile (p := fun x => !p x) (l := xs)
        rwa [hrest, List.append_nil] at hsplit
      rw [hall] at hplain hbefore
      constructor
      · rintro ⟨x, hx, htrue⟩
        rw [hplain x hx] at htrue
        cases htrue
      · rintro ⟨⟨x, hx, htrue⟩, _⟩
        rw [hbefore x hx] at htrue
        cases htrue
  | cons y ys =>
      have hsplit : xs.takeWhile (fun x => !p x) ++ y :: ys = xs := by
        rw [← hrest]
        exact List.takeWhile_append_dropWhile
      have hy : p y = true := by
        have hfirst := List.head_dropWhile_not (fun x => !p x) (l := xs) (by simp [hrest])
        simpa [hrest] using hfirst
      have hmem : ∃ x ∈ xs, p x = true := by
        refine ⟨y, ?_, hy⟩
        rw [← hsplit]
        exact List.mem_append_right _ (List.mem_cons_self ..)
      have hunseen : key y ∉
          (collect key bound [] (xs.takeWhile fun x => !p x)).map key := by
        intro hseen
        obtain ⟨x, hx, hkey⟩ := List.mem_map.mp hseen
        have hsame := hp x y hkey
        rw [hplain x hx, hy] at hsame
        cases hsame
      rw [← Nat.not_le, ← length_collect_eq_iff hbound]
      nth_rewrite 1 [← hsplit]
      rw [collect_append hbound]
      constructor
      · rintro ⟨x, hx, htrue⟩
        refine ⟨hmem, ?_⟩
        intro hfull
        rw [if_pos hfull] at hx
        rw [hplain x hx] at htrue
        cases htrue
      · rintro ⟨_, hopen⟩
        rw [if_neg hopen]
        refine ⟨y, ?_, hy⟩
        have hkept : y ∈ collect key bound [] (xs.takeWhile fun x => !p x) ++ [y] :=
          List.mem_append_right _ (List.mem_singleton_self y)
        rw [collect, if_neg hunseen]
        split
        · exact hkept
        · exact prefix_collect.subset hkept

end PackageHarness.Sequence
