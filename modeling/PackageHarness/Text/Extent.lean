/-
# PackageHarness.Text.Extent — how far a match goes.

A pattern whose characters are all of one class does not pass a character outside it, a pattern that
ends with a word does not go behind the last place where the word stands, and a lazy repetition stops at
the first place where the rest of the pattern can match.

Nothing in this module mentions a particular program.
-/
import PackageHarness.Text.Seams

namespace PackageHarness.Text

namespace Regex

variable {p q : Char → Bool} {r t : Regex} {same : Char → Char → Bool} {a l s x : List Char}

/-! ## The characters of a match -/

/-- Every character that is taken is in the class. -/
def TakesOnly (p : Char → Bool) (r : Regex) : Prop :=
  ∀ prev s run, run ∈ r.runs prev s → ∀ c ∈ run.1, p c = true

theorem takesOnly_empty : TakesOnly p empty := by
  intro prev s run h c hc
  rw [List.mem_singleton.mp h] at hc
  cases hc

theorem takesOnly_one (h : ∀ c, q c = true → p c = true) : TakesOnly p (one q) := by
  intro prev s run hrun c hc
  obtain ⟨d, hd, -, hq⟩ := mem_oneRuns.mp hrun
  rw [hd, List.mem_singleton] at hc
  rw [hc]
  exact h d hq

theorem takesOnly_many (h : ∀ c, q c = true → p c = true) : TakesOnly p (many q) :=
  fun _ _ _ hrun c hc => h c ((mem_manyRuns.mp hrun).2 c hc)

theorem takesOnly_seq (hr : TakesOnly p r) (ht : TakesOnly p t) : TakesOnly p (seq r t) := by
  intro prev s run hrun c hc
  obtain ⟨left, hleft, right, hright, rfl⟩ := mem_seq.mp hrun
  rcases List.mem_append.mp hc with hin | hin
  · exact hr _ _ _ hleft c hin
  · exact ht _ _ _ hright c hin

theorem takesOnly_alt (hr : TakesOnly p r) (ht : TakesOnly p t) : TakesOnly p (alt r t) := by
  intro prev s run hrun
  rcases List.mem_append.mp hrun with hin | hin
  · exact hr _ _ _ hin
  · exact ht _ _ _ hin

theorem takesOnly_plus (h : ∀ c, q c = true → p c = true) : TakesOnly p (plus q) :=
  takesOnly_seq (takesOnly_one h) (takesOnly_many h)

theorem takesOnly_spell (h : ∀ c ∈ l, ∀ d, same c d = true → p d = true) :
    TakesOnly p (spell same l) := by
  induction l with
  | nil => exact takesOnly_empty
  | cons c l ih =>
      exact takesOnly_seq (takesOnly_one (h c List.mem_cons_self))
        (ih fun d hd => h d (List.mem_cons_of_mem c hd))

/-- Every match ends with the word. -/
def EndsWith (y : List Char) (r : Regex) : Prop :=
  ∀ prev s run, run ∈ r.runs prev s → y <:+ run.1

theorem endsWith_seq {y : List Char} (ht : EndsWith y t) (r : Regex) : EndsWith y (seq r t) := by
  intro prev s run h
  obtain ⟨left, -, right, hright, rfl⟩ := mem_seq.mp h
  exact (ht _ _ _ hright).trans (List.suffix_append _ _)

/-- The beginning of a word is spelled by the beginning of the text. -/
theorem spelled_take (h : spelled same l (x ++ s) = true) :
    spelled same (l.take x.length) x = true := by
  induction l generalizing x with
  | nil => rw [List.take_nil]; rfl
  | cons c l ih =>
      cases x with
      | nil => rfl
      | cons d x =>
          rw [List.cons_append, spelled, Bool.and_eq_true] at h
          rw [List.length_cons, List.take_succ_cons, spelled, h.1, Bool.true_and]
          exact ih h.2

/-! ## Lazy repetition -/

theorem manyRuns_reverse (p : Char → Bool) (s : List Char) :
    ∃ l, (manyRuns p s).reverse = ([], s) :: l := by
  cases s with
  | nil => exact ⟨[], rfl⟩
  | cons c s =>
      rw [manyRuns]
      split
      · exact ⟨_, by rw [List.reverse_append, List.reverse_singleton]; rfl⟩
      · exact ⟨[], rfl⟩

/-- If the rest of the pattern can match behind `a`, the repetition takes no more than `a`. -/
theorem manyLazy_le {β : Type} {f : List Char × List Char → List β} {b : β}
    (ha : ∀ c ∈ a, p c = true) (hf : f (a, s) ≠ [])
    (h : ((manyRuns p (a ++ s)).reverse.flatMap f).head? = some b) :
    ∃ x y, a ++ s = x ++ y ∧ x.length ≤ a.length ∧ b ∈ f (x, y) := by
  induction a generalizing f with
  | nil =>
      obtain ⟨l, hl⟩ := manyRuns_reverse p s
      obtain ⟨d, y, hd⟩ := List.exists_cons_of_ne_nil hf
      rw [List.nil_append, hl, List.flatMap_cons, hd] at h
      refine ⟨[], s, rfl, Nat.le_refl 0, ?_⟩
      rw [hd, ← Option.some.inj h]
      exact List.mem_cons_self
  | cons c a ih =>
      obtain ⟨hc, hlater⟩ := List.forall_mem_cons.mp ha
      rw [List.cons_append, manyRuns, if_pos hc, List.reverse_append, List.reverse_singleton,
        List.singleton_append, List.flatMap_cons, List.head?_append] at h
      cases hfirst : (f ([], c :: (a ++ s))).head? with
      | some d =>
          rw [hfirst] at h
          cases h
          exact ⟨[], c :: (a ++ s), rfl, Nat.zero_le _, List.mem_of_mem_head? hfirst⟩
      | none =>
          rw [hfirst, Option.none_or, ← List.map_reverse, List.flatMap_map] at h
          obtain ⟨x, y, hsplit, hle, hmem⟩ := ih (f := fun run => f (c :: run.1, run.2)) hlater hf h
          exact ⟨c :: x, y, congrArg (c :: ·) hsplit, Nat.succ_le_succ hle, hmem⟩

/-! ## The matches within the beginning of a text -/

/-- What the two parts of a sequence take, and what they leave. -/
def pairs (r t : Regex) (prev : Option Char) (s : List Char) :
    List (List Char × (List Char × List Char)) :=
  (r.runs prev s).flatMap fun run => (t.runs (lastOf prev run.1) run.2).map fun later => (run.1, later)

theorem runs_seq_pairs (r t : Regex) (prev : Option Char) (s : List Char) :
    (seq r t).runs prev s = (pairs r t prev s).map fun pair => (pair.1 ++ pair.2.1, pair.2.2) := by
  rw [runs, pairs, List.map_flatMap]
  apply List.flatMap_congr
  intro run _
  rw [List.map_map]
  rfl

/-- The ways to match `x` are the ways to match `x ++ s` that end within `x`. -/
def Local (r : Regex) : Prop :=
  ∀ prev x s, (r.runs prev (x ++ s)).filter (fun run => run.1.length ≤ x.length) =
    (r.runs prev x).map fun run => (run.1, run.2 ++ s)

theorem flatMap_filter_of_nil {α β : Type} {l : List α} {q : α → Bool} {g : α → List β}
    (h : ∀ a ∈ l, q a = false → g a = []) : l.flatMap g = (l.filter q).flatMap g := by
  induction l with
  | nil => rfl
  | cons a l ih =>
      have hlater := ih fun b hb => h b (List.mem_cons_of_mem a hb)
      rw [List.flatMap_cons, List.filter_cons]
      cases hq : q a with
      | false => rw [h a List.mem_cons_self hq, hlater]; rfl
      | true => rw [hlater]; rfl

theorem pairs_local (hr : Local r) (ht : Local t) (prev : Option Char) (x s : List Char) :
    (pairs r t prev (x ++ s)).filter (fun pair => pair.1.length + pair.2.1.length ≤ x.length) =
      (pairs r t prev x).map fun pair => (pair.1, pair.2.1, pair.2.2 ++ s) := by
  rw [pairs, List.filter_flatMap,
    flatMap_filter_of_nil (q := fun run => run.1.length ≤ x.length), hr, List.flatMap_map, pairs,
    List.map_flatMap]
  · apply List.flatMap_congr
    intro run hrun
    have hsplit := congrArg List.length (append_of_mem_runs hrun)
    rw [List.length_append] at hsplit
    have hclass : ((fun pair : List Char × (List Char × List Char) =>
        decide (pair.1.length + pair.2.1.length ≤ x.length)) ∘ fun later => (run.1, later)) =
          fun later : List Char × List Char => decide (later.1.length ≤ run.2.length) := by
      funext later
      apply decide_eq_decide.mpr
      show run.1.length + later.1.length ≤ x.length ↔ later.1.length ≤ run.2.length
      omega
    rw [List.filter_map, hclass, ht, List.map_map, List.map_map]
    rfl
  · intro run hrun hlong
    have hlong' : ¬ run.1.length ≤ x.length := of_decide_eq_false hlong
    rw [List.filter_eq_nil_iff]
    intro pair hpair hshort
    obtain ⟨later, -, rfl⟩ := List.mem_map.mp hpair
    have hshort' : run.1.length + later.1.length ≤ x.length := of_decide_eq_true hshort
    omega

theorem local_manyRuns (p : Char → Bool) (x s : List Char) :
    (manyRuns p (x ++ s)).filter (fun run => run.1.length ≤ x.length) =
      (manyRuns p x).map fun run => (run.1, run.2 ++ s) := by
  induction x with
  | nil =>
      show (manyRuns p s).filter _ = [([], s)]
      cases s with
      | nil => rfl
      | cons c s =>
          rw [manyRuns]
          split
          · have hnone : (List.map (fun run : List Char × List Char => (c :: run.1, run.2)) (manyRuns p s)).filter
                (fun run => run.1.length ≤ ([] : List Char).length) = [] := by
              rw [List.filter_eq_nil_iff]
              intro run hrun hshort
              obtain ⟨later, -, rfl⟩ := List.mem_map.mp hrun
              exact absurd (of_decide_eq_true hshort) (Nat.not_succ_le_zero _)
            rw [List.filter_append, hnone]
            rfl
          · rfl
  | cons c x ih =>
      rw [List.cons_append, manyRuns, manyRuns]
      split
      · have hclass : ((fun run : List Char × List Char => decide (run.1.length ≤ (c :: x).length)) ∘
            fun run : List Char × List Char => (c :: run.1, run.2)) =
              fun run => decide (run.1.length ≤ x.length) := by
          funext run
          exact decide_eq_decide.mpr Nat.succ_le_succ_iff
        rw [List.filter_append, List.filter_map, hclass, ih, List.map_append, List.map_map,
          List.map_map]
        rfl
      · rfl

theorem local_of_blind (h : r.blind = true) : Local r := by
  induction r with
  | empty =>
      intro prev x s
      rfl
  | one p =>
      intro prev x s
      cases x with
      | nil =>
          cases s with
          | nil => rfl
          | cons c s =>
              show (oneRuns p (c :: s)).filter _ = []
              rw [oneRuns]
              split <;> rfl
      | cons c x =>
          show (oneRuns p (c :: (x ++ s))).filter _ = (oneRuns p (c :: x)).map _
          rw [oneRuns, oneRuns]
          split
          · have hone : [c].length ≤ (c :: x).length := Nat.succ_le_succ (Nat.zero_le _)
            exact List.filter_cons_of_pos (decide_eq_true hone)
          · rfl
  | many p => exact fun _ x s => local_manyRuns p x s
  | manyLazy p =>
      intro prev x s
      show (manyRuns p (x ++ s)).reverse.filter _ = (manyRuns p x).reverse.map _
      rw [List.filter_reverse, local_manyRuns, List.map_reverse]
  | seq r t ihr iht =>
      obtain ⟨hr, ht⟩ := Bool.and_eq_true_iff.mp h
      intro prev x s
      have hclass : ((fun run : List Char × List Char => decide (run.1.length ≤ x.length)) ∘
          fun pair : List Char × (List Char × List Char) => (pair.1 ++ pair.2.1, pair.2.2)) =
            fun pair => decide (pair.1.length + pair.2.1.length ≤ x.length) := by
        funext pair
        exact congrArg (fun n => decide (n ≤ x.length)) List.length_append
      rw [runs_seq_pairs, runs_seq_pairs, List.filter_map, hclass, pairs_local (ihr hr) (iht ht),
        List.map_map, List.map_map]
      rfl
  | alt r t ihr iht =>
      obtain ⟨hr, ht⟩ := Bool.and_eq_true_iff.mp h
      intro prev x s
      rw [runs, runs, List.filter_append, List.map_append, ihr hr, iht ht]
  | look holds => cases h

end Regex

namespace Rewrite

variable {w : Rewrite} {p : Char → Bool} {prev : Option Char} {c : Char} {s t u x : List Char}
  {found : Found}

/-- A match of characters of a class ends before a character outside it. -/
theorem size_le_of_takesOnly (hgroup : Regex.TakesOnly p w.group) (hrest : Regex.TakesOnly p w.rest)
    (hc : p c = false) (h : w.first prev (t ++ c :: s) = some found) : found.size ≤ t.length := by
  have hsplit := first_split h
  obtain ⟨left, hleft, right, hright, rfl⟩ := first_sound h
  by_contra hlong
  have hbegins : t ++ [c] <+: left.1 ++ right.1 := by
    refine List.prefix_of_prefix_length_le (?_ : _ <+: t ++ c :: s) ?_ ?_
    · exact ⟨s, by simp⟩
    · rw [hsplit]
      exact List.prefix_append _ _
    · rw [List.length_append, List.length_append]
      exact Nat.lt_of_not_le hlong
  have hin : c ∈ left.1 ++ right.1 := hbegins.subset (by simp)
  rcases List.mem_append.mp hin with hmem | hmem
  · rw [hgroup _ _ _ hleft c hmem] at hc
    cases hc
  · rw [hrest _ _ _ hright c hmem] at hc
    cases hc

/-- A match that ends with a word does not go into a text without the word, over a character that is
not of the word. -/
theorem size_le_of_endsWith {y : List Char} (hy : Regex.EndsWith y w.rest) (hne : y ≠ []) (hc : c ∉ y)
    (hs : ¬ y <:+: s) (h : w.first prev (t ++ c :: s) = some found) : found.size ≤ t.length := by
  have hsplit := first_split h
  obtain ⟨left, -, right, hright, rfl⟩ := first_sound h
  obtain ⟨x, hx⟩ := hy _ _ _ hright
  by_contra hlong
  have hlength := congrArg List.length hx
  simp only [Found.size, List.length_append] at hlong hlength
  have htext : t ++ c :: s = left.1 ++ x ++ (y ++ right.2) := by
    rw [hsplit, ← hx]
    simp
  rcases List.append_eq_append_iff.mp htext with ⟨z, hz, hrest⟩ | ⟨z, hz, hrest⟩
  · cases z with
    | nil =>
        obtain ⟨d, y, rfl⟩ := List.exists_cons_of_ne_nil hne
        rw [(List.cons_eq_cons.mp hrest).1] at hc
        exact hc List.mem_cons_self
    | cons d z =>
        apply hs
        rw [(List.cons_eq_cons.mp hrest).2]
        exact ⟨z, right.2, by simp⟩
  · have hbegins : z ++ [c] <+: y := by
      refine List.prefix_of_prefix_length_le (?_ : _ <+: y ++ right.2) ?_ ?_
      · rw [hrest]
        exact ⟨s, by simp⟩
      · exact List.prefix_append _ _
      · have htotal := congrArg List.length hz
        simp only [List.length_append, List.length_singleton] at htotal ⊢
        omega
    exact hc (hbegins.subset (by simp))

/-- A text without the word has no match at all. -/
theorem replaceFrom_of_endsWith {y : List Char} (hy : Regex.EndsWith y w.rest) (hs : ¬ y <:+: s)
    (prev : Option Char) : w.replaceFrom 0 prev s = s := by
  induction s generalizing prev with
  | nil => rfl
  | cons c s ih =>
      cases h : w.first prev (c :: s) with
      | none => rw [replaceFrom_none h, ih fun hin => hs (hin.trans (List.suffix_cons c s).isInfix)]
      | some found =>
          have hsplit := first_split h
          obtain ⟨left, -, right, hright, rfl⟩ := first_sound h
          obtain ⟨x, hx⟩ := hy _ _ _ hright
          apply absurd _ hs
          rw [hsplit, ← hx]
          exact ⟨left.1 ++ x, right.2, by simp⟩

/-- What is found at a place, as a list of all the ways to match there. -/
theorem first_eq_pairs (w : Rewrite) (prev : Option Char) (s : List Char) :
    w.first prev s = ((Regex.pairs w.group w.rest prev s).map fun pair =>
      (⟨pair.1, pair.2.1, pair.2.2⟩ : Found)).head? := by
  rw [first, Regex.pairs, List.map_flatMap]
  congr 1
  apply List.flatMap_congr
  intro run _
  rw [List.map_map]
  rfl

/-- A match that ends within the beginning of a text does not depend on the rest. -/
theorem first_within (hblind : (w.group.seq w.rest).blind = true)
    (h : ∀ found, w.first prev (x ++ s) = some found → found.size ≤ x.length) :
    w.first prev (x ++ s) =
      (w.first prev x).map fun found => { found with behind := found.behind ++ s } := by
  obtain ⟨hgroup, hrest⟩ := Bool.and_eq_true_iff.mp hblind
  have hpairs := Regex.pairs_local (Regex.local_of_blind hgroup) (Regex.local_of_blind hrest) prev x s
  rw [first_eq_pairs, List.head?_map] at h
  rw [first_eq_pairs, first_eq_pairs, List.head?_map, List.head?_map, Option.map_map]
  have hhead : (Regex.pairs w.group w.rest prev (x ++ s)).head? =
      ((Regex.pairs w.group w.rest prev (x ++ s)).filter
        fun pair => pair.1.length + pair.2.1.length ≤ x.length).head? := by
    cases hlist : Regex.pairs w.group w.rest prev (x ++ s) with
    | nil => rfl
    | cons pair pairs =>
        rw [hlist] at h
        have hshort : pair.1.length + pair.2.1.length ≤ x.length := h _ rfl
        simp only [List.filter_cons, hshort, decide_true, if_true, List.head?_cons]
  rw [hhead, hpairs, List.head?_map, Option.map_map]
  rfl

/-- So two texts behind it are not told apart. -/
theorem agree_within {t s' : List Char} (hblind : (w.group.seq w.rest).blind = true)
    (h : ∀ found, w.first prev (t ++ s) = some found → found.size ≤ t.length)
    (h' : ∀ found, w.first prev (t ++ s') = some found → found.size ≤ t.length) :
    Agree w prev t s s' := by
  rw [Agree, first_within hblind h, first_within hblind h']
  cases w.first prev t with
  | none => exact Or.inl ⟨rfl, rfl⟩
  | some found => exact Or.inr ⟨_, _, rfl, rfl, rfl, Or.inl rfl⟩

/-- If no match of the beginning goes on into the rest, and none begins there, the two are rewritten
apart. -/
theorem replaceAll_apart (hblind : (w.group.seq w.rest).blind = true)
    (h : ∀ prev t found, w.first prev (t ++ s) = some found → found.size ≤ t.length) (u : List Char) :
    w.replaceAll (u ++ s) = w.replaceAll u ++ w.replaceFrom 0 (lastOf none u) s := by
  have hnil : ∀ prev t found, w.first prev (t ++ []) = some found → found.size ≤ t.length := by
    intro prev t found hfound
    have hsplit := congrArg List.length (first_split hfound)
    simp only [List.length_append, List.length_nil] at hsplit
    rw [Found.size]
    omega
  have hstop : w.overrun 0 none u s = 0 := by
    apply Nat.eq_zero_of_le_zero
    exact overrun_le (Nat.zero_le _) fun prev t _ _ found hfound => h prev t found hfound
  have hwritten : w.written 0 none u s = w.written 0 none u [] :=
    written_agree (fun _ t _ _ => agree_within hblind (h _ t) (hnil _ t)) (Or.inl rfl)
  rw [replaceAll, replaceFrom_append, hstop, hwritten, ← replaceFrom_eq_written, replaceAll]

end Rewrite
end PackageHarness.Text
