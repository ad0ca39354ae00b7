/-
# PackageHarness.Text.Regex — regular expressions read by backtracking, leftmost first.

A place in a text is the character before it and the text behind it. `runs r prev s` lists the ways
in which `r` can match at a place, each as what it takes and what it leaves, in the order in which a
backtracking engine tries them: an earlier alternative before a later one, a greedy repetition with
the longest text first, a lazy one with the shortest. The first of them is the match at that place.

Repetition is of single characters. Nothing in this module mentions a particular program.
-/
import Mathlib.Data.List.Forall2

namespace PackageHarness.Text

inductive Regex
  | empty
  | one (p : Char → Bool)
  | many (p : Char → Bool)
  | manyLazy (p : Char → Bool)
  | seq (r t : Regex)
  | alt (r t : Regex)
  /-- Takes nothing, and asks about the characters on both sides of the place. -/
  | look (holds : Option Char → Option Char → Bool)

/-- The character before the text that follows `x`. -/
def lastOf (prev : Option Char) : List Char → Option Char
  | [] => prev
  | c :: x => lastOf (some c) x

namespace Regex

/-- At least one character of a class, as many as possible. -/
def plus (p : Char → Bool) : Regex := seq (one p) (many p)

/-- A text, letter by letter. -/
def spell (same : Char → Char → Bool) : List Char → Regex
  | [] => empty
  | c :: l => seq (one (same c)) (spell same l)

/-- The beginnings of a text in a class, the longest first. -/
def manyRuns (p : Char → Bool) : List Char → List (List Char × List Char)
  | [] => [([], [])]
  | c :: s =>
      if p c then (manyRuns p s).map (fun run => (c :: run.1, run.2)) ++ [([], c :: s)]
      else [([], c :: s)]

def oneRuns (p : Char → Bool) : List Char → List (List Char × List Char)
  | [] => []
  | c :: s => if p c then [([c], s)] else []

def runs : Regex → Option Char → List Char → List (List Char × List Char)
  | empty, _, s => [([], s)]
  | one p, _, s => oneRuns p s
  | many p, _, s => manyRuns p s
  | manyLazy p, _, s => (manyRuns p s).reverse
  | seq r t, prev, s => (r.runs prev s).flatMap fun run =>
      (t.runs (lastOf prev run.1) run.2).map fun later => (run.1 ++ later.1, later.2)
  | alt r t, prev, s => r.runs prev s ++ t.runs prev s
  | look holds, prev, s => if holds prev s.head? then [([], s)] else []

/-- Whether the empty text may match. -/
def nullable : Regex → Bool
  | empty => true
  | one _ => false
  | many _ => true
  | manyLazy _ => true
  | seq r t => r.nullable && t.nullable
  | alt r t => r.nullable || t.nullable
  | look _ => true

end Regex

/-! ## What a match takes and leaves -/

section Runs

variable {p : Char → Bool} {prev : Option Char} {c : Char} {r t : Regex}
  {s x y u rest : List Char} {run : List Char × List Char}

theorem lastOf_append (prev : Option Char) (x y : List Char) :
    lastOf prev (x ++ y) = lastOf (lastOf prev x) y := by
  induction x generalizing prev with
  | nil => rfl
  | cons c x ih => exact ih (some c)

theorem lastOf_concat (prev : Option Char) (x : List Char) (c : Char) :
    lastOf prev (x ++ [c]) = some c := lastOf_append prev x [c]

namespace Regex

theorem mem_manyRuns : run ∈ manyRuns p s ↔ s = run.1 ++ run.2 ∧ ∀ c ∈ run.1, p c = true := by
  obtain ⟨x, rest⟩ := run
  induction s generalizing x with
  | nil =>
      rw [manyRuns, List.mem_singleton, Prod.mk.injEq]
      constructor
      · rintro ⟨rfl, rfl⟩
        exact ⟨rfl, fun _ h => absurd h List.not_mem_nil⟩
      · rintro ⟨h, -⟩
        exact List.append_eq_nil_iff.mp h.symm
  | cons c s ih =>
      have hnil : (x, rest) = (([], c :: s) : List Char × List Char) →
          c :: s = x ++ rest ∧ ∀ d ∈ x, p d = true := by
        intro h
        cases h
        exact ⟨rfl, fun _ h => absurd h List.not_mem_nil⟩
      rw [manyRuns]
      split
      case isTrue hc =>
        rw [List.mem_append, List.mem_map, List.mem_singleton]
        constructor
        · rintro (⟨⟨y, rest'⟩, hmem, heq⟩ | h)
          · cases heq
            obtain ⟨rfl, hall⟩ := (ih y).mp hmem
            exact ⟨rfl, List.forall_mem_cons.mpr ⟨hc, hall⟩⟩
          · exact hnil h
        · rintro ⟨h, hall⟩
          cases x with
          | nil => exact Or.inr (by rw [List.nil_append] at h; rw [h])
          | cons d y =>
              obtain ⟨rfl, rfl⟩ := List.cons_eq_cons.mp h
              exact Or.inl ⟨(y, rest), (ih y).mpr ⟨rfl, (List.forall_mem_cons.mp hall).2⟩, rfl⟩
      case isFalse hc =>
        rw [List.mem_singleton]
        constructor
        · exact hnil
        · rintro ⟨h, hall⟩
          cases x with
          | nil => rw [List.nil_append] at h; rw [h]
          | cons d y =>
              obtain ⟨rfl, rfl⟩ := List.cons_eq_cons.mp h
              exact absurd (hall c List.mem_cons_self) hc

theorem mem_oneRuns : run ∈ oneRuns p s ↔ ∃ c, run.1 = [c] ∧ s = c :: run.2 ∧ p c = true := by
  obtain ⟨x, rest⟩ := run
  cases s with
  | nil =>
      refine iff_of_false List.not_mem_nil ?_
      rintro ⟨c, -, h, -⟩
      cases h
  | cons c s =>
      rw [oneRuns]
      split
      case isTrue hc =>
        rw [List.mem_singleton]
        constructor
        · intro h
          cases h
          exact ⟨c, rfl, rfl, hc⟩
        · rintro ⟨d, hx, hs, -⟩
          obtain ⟨rfl, rfl⟩ := List.cons_eq_cons.mp hs
          rw [← hx]
      case isFalse hc =>
        refine iff_of_false List.not_mem_nil ?_
        rintro ⟨d, -, hs, hd⟩
        obtain ⟨rfl, -⟩ := List.cons_eq_cons.mp hs
        exact hc hd

theorem mem_seq : run ∈ (seq r t).runs prev s ↔
    ∃ left ∈ r.runs prev s, ∃ right ∈ t.runs (lastOf prev left.1) left.2,
      run = (left.1 ++ right.1, right.2) := by
  rw [runs, List.mem_flatMap]
  simp only [List.mem_map, eq_comm]

theorem seq_flatMap {β : Type} (r t : Regex) (prev : Option Char) (s : List Char)
    (f : List Char × List Char → List β) :
    ((seq r t).runs prev s).flatMap f = (r.runs prev s).flatMap fun run =>
      (t.runs (lastOf prev run.1) run.2).flatMap fun later => f (run.1 ++ later.1, later.2) := by
  rw [runs, List.flatMap_assoc]
  apply List.flatMap_congr
  intro run _
  rw [List.flatMap_map]

theorem append_of_mem_runs (h : run ∈ r.runs prev s) : s = run.1 ++ run.2 := by
  induction r generalizing prev s run with
  | empty =>
      rw [List.mem_singleton.mp h]
      rfl
  | one p =>
      obtain ⟨c, hx, hs, -⟩ := mem_oneRuns.mp h
      rw [hx, hs]
      rfl
  | many p => exact (mem_manyRuns.mp h).1
  | manyLazy p => exact (mem_manyRuns.mp (List.mem_reverse.mp h)).1
  | seq r t ihr iht =>
      obtain ⟨left, hleft, right, hright, rfl⟩ := mem_seq.mp h
      rw [ihr hleft, iht hright, List.append_assoc]
  | alt r t ihr iht =>
      rcases List.mem_append.mp h with hr | ht
      · exact ihr hr
      · exact iht ht
  | look holds =>
      rw [runs] at h
      split at h
      · rw [List.mem_singleton.mp h]
        rfl
      · cases h

theorem ne_nil_of_mem_runs (hr : r.nullable = false) (h : run ∈ r.runs prev s) : run.1 ≠ [] := by
  induction r generalizing prev s run with
  | empty => cases hr
  | one p =>
      obtain ⟨c, hx, -⟩ := mem_oneRuns.mp h
      rw [hx]
      exact List.cons_ne_nil c []
  | many p => cases hr
  | manyLazy p => cases hr
  | seq r t ihr iht =>
      obtain ⟨left, hleft, right, hright, rfl⟩ := mem_seq.mp h
      rw [Ne, List.append_eq_nil_iff, not_and_or]
      rcases Bool.and_eq_false_iff.mp hr with hr | ht
      · exact Or.inl (ihr hr hleft)
      · exact Or.inr (iht ht hright)
  | alt r t ihr iht =>
      obtain ⟨hr, ht⟩ := Bool.or_eq_false_iff.mp hr
      rcases List.mem_append.mp h with hmem | hmem
      · exact ihr hr hmem
      · exact iht ht hmem
  | look holds => cases hr

end Regex

end Runs

/-! ## Repetitions that only end in one way -/

namespace Regex

variable {p : Char → Bool} {s : List Char} {prev : Option Char}

/-- If nothing can follow inside a run of the class, only the whole run is taken. -/
theorem manyRuns_flatMap {β : Type} {f : List Char × List Char → List β}
    (hf : ∀ x c rest, p c = true → f (x, c :: rest) = []) :
    (manyRuns p s).flatMap f = f (s.takeWhile p, s.dropWhile p) := by
  induction s generalizing f with
  | nil => exact List.flatMap_singleton f _
  | cons c s ih =>
      rw [manyRuns, List.takeWhile_cons, List.dropWhile_cons]
      split
      case isTrue hc =>
        have hlater := ih (f := fun run => f (c :: run.1, run.2)) fun x d rest hd => hf _ d rest hd
        rw [List.flatMap_append, List.flatMap_map, hlater, List.flatMap_singleton, hf [] c s hc,
          List.append_nil]
      case isFalse hc => exact List.flatMap_singleton f _

theorem takeWhile_stop {x : List Char} (hx : ∀ c ∈ x, p c = true)
    (hs : ∀ c ∈ s.head?, p c = false) : (x ++ s).takeWhile p = x := by
  rw [List.takeWhile_append_of_pos hx]
  cases s with
  | nil => exact List.append_nil x
  | cons c s => rw [List.takeWhile_cons, hs c rfl, if_neg Bool.false_ne_true, List.append_nil]

theorem dropWhile_stop {x : List Char} (hx : ∀ c ∈ x, p c = true)
    (hs : ∀ c ∈ s.head?, p c = false) : (x ++ s).dropWhile p = s := by
  rw [List.dropWhile_append_of_pos hx]
  cases s with
  | nil => rfl
  | cons c s => rw [List.dropWhile_cons, hs c rfl, if_neg Bool.false_ne_true]

/-- A run of the class ends within the first part of a text, or it goes on into the second. -/
theorem takeWhile_append_cases (p : Char → Bool) (x : List Char) :
    (∀ s, (x ++ s).takeWhile p = x.takeWhile p) ∨ ∀ s, (x ++ s).takeWhile p = x ++ s.takeWhile p := by
  induction x with
  | nil => exact Or.inr fun _ => rfl
  | cons c x ih =>
      cases hc : p c with
      | false =>
          left
          intro s
          rw [List.cons_append, List.takeWhile_cons, List.takeWhile_cons, hc]
          rfl
      | true =>
          rcases ih with hend | hon
          · left
            intro s
            rw [List.cons_append, List.takeWhile_cons, List.takeWhile_cons, hend]
          · right
            intro s
            rw [List.cons_append, List.takeWhile_cons, hc, if_pos rfl, hon]
            rfl

theorem length_takeWhile_le {x : List Char} (hs : ∀ c ∈ s.head?, p c = false) :
    ((x ++ s).takeWhile p).length ≤ x.length := by
  induction x with
  | nil =>
      cases s with
      | nil => exact Nat.le_refl 0
      | cons c s =>
          have hnil : ([] ++ c :: s).takeWhile p = [] := List.takeWhile_cons_of_neg (by simp [hs c rfl])
          exact Nat.le_of_eq (congrArg List.length hnil)
  | cons c x ih =>
      rw [List.cons_append, List.takeWhile_cons, List.length_cons]
      split
      · rw [List.length_cons]
        omega
      · exact Nat.zero_le _

theorem manyRuns_head? : (manyRuns p s).head? = some (s.takeWhile p, s.dropWhile p) := by
  induction s with
  | nil => rfl
  | cons c s ih =>
      rw [manyRuns, List.takeWhile_cons, List.dropWhile_cons]
      split
      case isTrue hc =>
        rw [List.head?_append, List.head?_map, ih]
        rfl
      case isFalse hc => rfl

theorem of_mem_plus {run : List Char × List Char} (h : run ∈ (plus p).runs prev s) :
    ∀ c ∈ run.1, p c = true := by
  obtain ⟨left, hleft, right, hright, rfl⟩ := mem_seq.mp h
  obtain ⟨d, hd, -, hclass⟩ := mem_oneRuns.mp hleft
  intro c hc
  rcases List.mem_append.mp hc with hfirst | hlater
  · rw [hd, List.mem_singleton] at hfirst
    rw [hfirst]
    exact hclass
  · exact (mem_manyRuns.mp hright).2 c hlater

theorem runs_plus_cons (prev : Option Char) (c : Char) (s : List Char) :
    (plus p).runs prev (c :: s) =
      if p c = true then (manyRuns p s).map fun run => (c :: run.1, run.2) else [] := by
  rw [plus, runs, runs, oneRuns]
  split
  · rw [List.flatMap_singleton]
    rfl
  · rfl

theorem plus_flatMap {β : Type} {f : List Char × List Char → List β}
    (hf : ∀ x c rest, p c = true → f (x, c :: rest) = []) (prev : Option Char) :
    ((plus p).runs prev s).flatMap f =
      if s.takeWhile p = [] then [] else f (s.takeWhile p, s.dropWhile p) := by
  cases s with
  | nil => rfl
  | cons c s =>
      rw [runs_plus_cons, List.takeWhile_cons, List.dropWhile_cons]
      split
      · rw [List.flatMap_map, if_neg (List.cons_ne_nil _ _)]
        exact manyRuns_flatMap fun x d rest hd => hf (c :: x) d rest hd
      · rw [if_pos rfl]
        rfl

theorem plus_head? (prev : Option Char) : ((plus p).runs prev s).head? =
    if s.takeWhile p = [] then none else some (s.takeWhile p, s.dropWhile p) := by
  cases s with
  | nil => rfl
  | cons c s =>
      rw [runs_plus_cons, List.takeWhile_cons, List.dropWhile_cons]
      split
      · rw [List.head?_map, manyRuns_head?, if_neg (List.cons_ne_nil _ _)]
        rfl
      · rw [if_pos rfl]
        rfl

/-- Whether a text begins with these letters. -/
def spelled (same : Char → Char → Bool) : List Char → List Char → Bool
  | [], _ => true
  | _ :: _, [] => false
  | c :: l, d :: s => same c d && spelled same l s

theorem runs_spell (same : Char → Char → Bool) (l : List Char) (prev : Option Char)
    (s : List Char) :
    (spell same l).runs prev s =
      if spelled same l s then [(s.take l.length, s.drop l.length)] else [] := by
  induction l generalizing prev s with
  | nil => rfl
  | cons c l ih =>
      cases s with
      | nil => rfl
      | cons d s =>
          rw [spell, runs, runs, oneRuns, spelled]
          cases hd : same c d with
          | false => rfl
          | true =>
              rw [if_pos rfl, List.flatMap_singleton, ih, Bool.true_and]
              split <;> rfl

/-- A text with these letters. -/
def Spells (same : Char → Char → Bool) : List Char → List Char → Prop :=
  List.Forall₂ fun c d => same c d = true

theorem spelled_iff {same : Char → Char → Bool} {l s : List Char} :
    spelled same l s = true ↔ ∃ x rest, s = x ++ rest ∧ Spells same l x := by
  induction l generalizing s with
  | nil => exact iff_of_true rfl ⟨[], s, rfl, List.Forall₂.nil⟩
  | cons c l ih =>
      cases s with
      | nil =>
          refine iff_of_false (by rw [spelled]; decide) ?_
          rintro ⟨x, rest, hs, hx⟩
          obtain ⟨rfl, -⟩ := List.append_eq_nil_iff.mp hs.symm
          cases hx
      | cons d s =>
          rw [spelled, Bool.and_eq_true, ih]
          constructor
          · rintro ⟨hd, x, rest, rfl, hx⟩
            exact ⟨d :: x, rest, rfl, List.Forall₂.cons hd hx⟩
          · rintro ⟨x, rest, hs, hx⟩
            cases hx with
            | cons hd hx =>
                obtain ⟨rfl, rfl⟩ := List.cons_eq_cons.mp hs
                exact ⟨hd, _, rest, rfl, hx⟩

theorem spelled_length_le {same : Char → Char → Bool} {l s : List Char}
    (h : spelled same l s = true) : l.length ≤ s.length := by
  obtain ⟨x, rest, rfl, hx⟩ := spelled_iff.mp h
  rw [hx.length_eq, List.length_append]
  omega

theorem spelled_append {same : Char → Char → Bool} {l x : List Char} (h : l.length ≤ x.length)
    (s : List Char) : spelled same l (x ++ s) = spelled same l x := by
  induction l generalizing x with
  | nil => rfl
  | cons c l ih =>
      cases x with
      | nil => simp at h
      | cons d x =>
          rw [List.cons_append, spelled, spelled, ih (Nat.le_of_succ_le_succ h)]

theorem runs_spell_append {same : Char → Char → Bool} {l x : List Char} (hx : Spells same l x)
    (prev : Option Char) (s : List Char) : (spell same l).runs prev (x ++ s) = [(x, s)] := by
  have hlength : l.length = x.length := hx.length_eq
  rw [runs_spell, if_pos (spelled_iff.mpr ⟨x, s, rfl, hx⟩), hlength, List.take_left, List.drop_left]

theorem mem_runs_spell {same : Char → Char → Bool} {l s : List Char} {prev : Option Char}
    {run : List Char × List Char} (h : run ∈ (spell same l).runs prev s) :
    s = run.1 ++ run.2 ∧ Spells same l run.1 := by
  refine ⟨append_of_mem_runs h, ?_⟩
  rw [runs_spell] at h
  split at h
  · next hs =>
      obtain ⟨x, rest, rfl, hx⟩ := spelled_iff.mp hs
      have hlength : l.length = x.length := hx.length_eq
      rw [List.mem_singleton.mp h, hlength, List.take_left]
      exact hx
  · cases h

/-- Whether a pattern asks nothing about the characters around a place. -/
def blind : Regex → Bool
  | seq r t => r.blind && t.blind
  | alt r t => r.blind && t.blind
  | look _ => false
  | _ => true

theorem runs_blind {r : Regex} (h : r.blind = true) (prev prev' : Option Char) (s : List Char) :
    r.runs prev s = r.runs prev' s := by
  induction r generalizing prev prev' s with
  | empty => rfl
  | one p => rfl
  | many p => rfl
  | manyLazy p => rfl
  | seq r t ihr iht =>
      obtain ⟨hr, ht⟩ := Bool.and_eq_true_iff.mp h
      rw [runs, runs, ihr hr prev prev' s]
      apply List.flatMap_congr
      intro run _
      rw [iht ht (lastOf prev run.1) (lastOf prev' run.1)]
  | alt r t ihr iht =>
      obtain ⟨hr, ht⟩ := Bool.and_eq_true_iff.mp h
      rw [runs, runs, ihr hr prev prev' s, iht ht prev prev' s]
  | look holds => cases h

/-! ## The last character of a match -/

/-- Every match ends with a character of the class. -/
def EndsIn (p : Char → Bool) (r : Regex) : Prop :=
  ∀ prev s run, run ∈ r.runs prev s → ∃ x c, run.1 = x ++ [c] ∧ p c = true

theorem endsIn_one (p : Char → Bool) : EndsIn p (one p) := by
  intro prev s run h
  obtain ⟨c, hx, -, hc⟩ := mem_oneRuns.mp h
  exact ⟨[], c, hx, hc⟩

theorem endsIn_seq {p : Char → Bool} {t : Regex} (ht : EndsIn p t) (r : Regex) :
    EndsIn p (seq r t) := by
  intro prev s run h
  obtain ⟨left, -, right, hright, rfl⟩ := mem_seq.mp h
  obtain ⟨x, c, hx, hc⟩ := ht _ _ _ hright
  refine ⟨left.1 ++ x, c, ?_, hc⟩
  show left.1 ++ right.1 = _
  rw [hx, List.append_assoc]

theorem endsIn_plus (p : Char → Bool) : EndsIn p (plus p) := by
  intro prev s run h
  obtain ⟨left, hleft, right, hright, rfl⟩ := mem_seq.mp h
  obtain ⟨c, hx, -, hc⟩ := mem_oneRuns.mp hleft
  show ∃ x d, left.1 ++ right.1 = x ++ [d] ∧ p d = true
  rcases List.eq_nil_or_concat right.1 with hnil | ⟨y, d, hy⟩
  · refine ⟨[], c, ?_, hc⟩
    rw [hx, hnil]
    rfl
  · refine ⟨left.1 ++ y, d, ?_, ?_⟩
    · rw [hy, List.concat_eq_append, List.append_assoc]
    · apply (mem_manyRuns.mp hright).2 d
      rw [hy]
      simp

theorem Spells.last {same : Char → Char → Bool} {l x : List Char} {c : Char}
    (h : Spells same (l ++ [c]) x) : ∃ y d, x = y ++ [d] ∧ same c d = true := by
  induction l generalizing x with
  | nil =>
      cases h with
      | cons hd hrest =>
          cases hrest
          exact ⟨[], _, rfl, hd⟩
  | cons e l ih =>
      cases h with
      | cons hd hrest =>
          obtain ⟨y, d, rfl, hc⟩ := ih hrest
          exact ⟨_ :: y, d, rfl, hc⟩

theorem endsIn_spell {p : Char → Bool} {same : Char → Char → Bool} (l : List Char) {c : Char}
    (hc : ∀ d, same c d = true → p d = true) : EndsIn p (spell same (l ++ [c])) := by
  intro prev s run h
  obtain ⟨y, d, hy, hd⟩ := (mem_runs_spell h).2.last
  exact ⟨y, d, hy, hc d hd⟩

/-! ## The parts of a longer pattern -/

theorem runs_seq_assoc (r t v : Regex) (prev : Option Char) (s : List Char) :
    (seq (seq r t) v).runs prev s = (seq r (seq t v)).runs prev s := by
  rw [runs, seq_flatMap, runs]
  apply List.flatMap_congr
  intro run _
  rw [runs, List.map_flatMap]
  apply List.flatMap_congr
  intro later _
  rw [List.map_map, lastOf_append]
  apply List.map_congr_left
  intro last _
  show (run.1 ++ later.1 ++ last.1, last.2) = (run.1 ++ (later.1 ++ last.1), last.2)
  rw [List.append_assoc]

theorem runs_seq_congr {t v : Regex} (h : ∀ prev s, t.runs prev s = v.runs prev s) (r : Regex)
    (prev : Option Char) (s : List Char) : (seq r t).runs prev s = (seq r v).runs prev s := by
  rw [runs, runs]
  apply List.flatMap_congr
  intro run _
  rw [h]

/-- Whether no part of a pattern takes a character, or asks about the places around it. -/
def avoids (c : Char) : Regex → Bool
  | empty => true
  | one p => !p c
  | many p => !p c
  | manyLazy p => !p c
  | seq r t => r.avoids c && t.avoids c
  | alt r t => r.avoids c && t.avoids c
  | look _ => false

theorem manyRuns_stop {p : Char → Bool} {c : Char} (hc : p c = false) (x s : List Char) :
    manyRuns p (x ++ c :: s) = (manyRuns p x).map fun run => (run.1, run.2 ++ c :: s) := by
  induction x with
  | nil =>
      show manyRuns p (c :: s) = [([], c :: s)]
      rw [manyRuns, hc, if_neg Bool.false_ne_true]
  | cons d x ih =>
      rw [List.cons_append, manyRuns, manyRuns, ih]
      split
      · rw [List.map_append, List.map_map, List.map_map]
        rfl
      · rfl

/-- A pattern that avoids a character reads what stands before it, whatever follows. -/
theorem runs_stop {r : Regex} {c : Char} (h : r.avoids c = true) (prev : Option Char)
    (x s : List Char) :
    r.runs prev (x ++ c :: s) = (r.runs prev x).map fun run => (run.1, run.2 ++ c :: s) := by
  induction r generalizing prev x with
  | empty => rfl
  | one p =>
      have hc : p c = false := by simpa [avoids] using h
      cases x with
      | nil =>
          show oneRuns p (c :: s) = _
          rw [oneRuns, if_neg (by rw [hc]; decide)]
          rfl
      | cons d x =>
          show oneRuns p (d :: (x ++ c :: s)) = List.map _ (oneRuns p (d :: x))
          rw [oneRuns, oneRuns]
          split <;> rfl
  | many p => exact manyRuns_stop (by simpa [avoids] using h) x s
  | manyLazy p =>
      show (manyRuns p (x ++ c :: s)).reverse = List.map _ (manyRuns p x).reverse
      rw [manyRuns_stop (by simpa [avoids] using h) x s, List.map_reverse]
  | seq r t ihr iht =>
      obtain ⟨hr, ht⟩ := Bool.and_eq_true_iff.mp h
      rw [runs, runs, ihr hr, List.flatMap_map, List.map_flatMap]
      apply List.flatMap_congr
      intro run _
      rw [iht ht, List.map_map, List.map_map]
      rfl
  | alt r t ihr iht =>
      obtain ⟨hr, ht⟩ := Bool.and_eq_true_iff.mp h
      rw [runs, runs, ihr hr, iht ht, List.map_append]
  | look holds => cases h

theorem head?_flatMap_first {α β : Type} {l : List α} {f : α → List β} {a : α} {b : β}
    (ha : l.head? = some a) (hb : (f a).head? = some b) : (l.flatMap f).head? = some b := by
  cases l with
  | nil => cases ha
  | cons d l =>
      cases ha
      rw [List.flatMap_cons, List.head?_append, hb]
      rfl

/-- If every attempt fails or gives the same result, there is that result or none. -/
theorem head?_flatMap {α β : Type} {l : List α} {f : α → List β} {b : β} {p : α → Bool}
    (hfail : ∀ a ∈ l, p a = false → f a = []) (hgood : ∀ a ∈ l, p a = true → (f a).head? = some b) :
    (l.flatMap f).head? = if l.any p then some b else none := by
  induction l with
  | nil => rfl
  | cons a l ih =>
      have ih := ih (fun d hd => hfail d (List.mem_cons_of_mem a hd))
        (fun d hd => hgood d (List.mem_cons_of_mem a hd))
      rw [List.flatMap_cons, List.head?_append, List.any_cons]
      cases ha : p a with
      | false =>
          rw [hfail a List.mem_cons_self ha, ih, Bool.false_or]
          rfl
      | true =>
          rw [hgood a List.mem_cons_self ha, Bool.true_or]
          rfl

end Regex

end PackageHarness.Text
