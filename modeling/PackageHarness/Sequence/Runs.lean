/-
# PackageHarness.Sequence.Runs — a text as its maximal runs.

Given which symbols are blank, a text falls into maximal runs, each of blanks only or of other
symbols only, that follow one another alternately. A `Runs` value carries these facts, so that it
is the only division of its text; a replacement that keeps the kind of every run gives the division
of the changed text.

Nothing in this module mentions a particular program.
-/
import Mathlib.Data.List.SplitBy

namespace PackageHarness.Sequence

variable {α : Type} {blank : α → Bool}

/-- Non-empty runs of one kind of symbol each, neighbours being of different kinds. -/
@[ext]
structure Runs (blank : α → Bool) where
  pieces : List (List α)
  ne_nil : ∀ p ∈ pieces, p ≠ []
  uniform : ∀ p ∈ pieces, ∀ c ∈ p, ∀ d ∈ p, blank c = blank d
  alternate : pieces.IsChain fun p q => ∀ c ∈ p, ∀ d ∈ q, blank c ≠ blank d

namespace Runs

/-- The text that falls into these runs. -/
def text (t : Runs blank) : List α := t.pieces.flatten

/-- Two symbols belong to one run when they are of one kind. -/
def alike (blank : α → Bool) (c d : α) : Bool := blank c == blank d

theorem uniform_of_isChain {p : List α} (h : p.IsChain fun c d => alike blank c d = true) :
    ∀ c ∈ p, ∀ d ∈ p, blank c = blank d := by
  induction p with
  | nil =>
      intro c hc
      cases hc
  | cons a p ih =>
      have hhead : ∀ d ∈ p, blank a = blank d := by
        intro d hd
        have htail := ih h.tail
        cases p with
        | nil => cases hd
        | cons b p =>
            have hab : blank a = blank b := by
              simpa [alike] using h.rel
            rw [hab]
            exact htail b List.mem_cons_self d hd
      intro c hc d hd
      rcases List.mem_cons.mp hc with hca | hc <;> rcases List.mem_cons.mp hd with hda | hd
      · rw [hca, hda]
      · rw [hca]
        exact hhead d hd
      · rw [hda]
        exact (hhead c hc).symm
      · exact ih h.tail c hc d hd

/-- The division of a text into its runs. -/
def ofText (blank : α → Bool) (l : List α) : Runs blank where
  pieces := l.splitBy (alike blank)
  ne_nil p hp := List.ne_nil_of_mem_splitBy hp
  uniform p hp := uniform_of_isChain (List.isChain_of_mem_splitBy hp)
  alternate := by
    apply List.IsChain.imp_of_mem_imp _ (List.isChain_getLast_head_splitBy (alike blank) l)
    rintro p q hp hq ⟨hp', hq', hdiff⟩ c hc d hd
    have hc' := uniform_of_isChain (List.isChain_of_mem_splitBy hp) c hc _ (List.getLast_mem hp')
    have hd' := uniform_of_isChain (List.isChain_of_mem_splitBy hq) d hd _ (List.head_mem hq')
    rw [hc', hd']
    simpa [alike] using hdiff

@[simp] theorem text_ofText (l : List α) : (ofText blank l).text = l :=
  List.flatten_splitBy (alike blank) l

/-- A text has one division into runs. -/
theorem text_injective : Function.Injective (text : Runs blank → List α) := by
  have hsplit : ∀ t : Runs blank, t.text.splitBy (alike blank) = t.pieces := by
    intro t
    apply List.splitBy_flatten
    · intro h
      exact t.ne_nil [] h rfl
    · intro p hp
      rw [List.isChain_iff_forall_rel_of_append_cons_cons]
      rintro c d l r rfl
      have := t.uniform _ hp c (by simp) d (by simp)
      simp [alike, this]
    · apply List.IsChain.imp_of_mem_imp _ t.alternate
      intro p q hp hq hdiff
      refine ⟨t.ne_nil p hp, t.ne_nil q hq, ?_⟩
      simpa [alike] using hdiff _ (List.getLast_mem _) _ (List.head_mem _)
  intro t u h
  ext1
  rw [← hsplit t, ← hsplit u, h]

/-- Every run replaced by one of the same kind. -/
def map (t : Runs blank) (f : List α → List α)
    (hf : ∀ p ∈ t.pieces, f p ≠ [] ∧ ∀ c ∈ f p, ∀ d ∈ p, blank c = blank d) : Runs blank where
  pieces := t.pieces.map f
  ne_nil := by
    intro q hq
    obtain ⟨p, hp, rfl⟩ := List.mem_map.mp hq
    exact (hf p hp).1
  uniform := by
    intro q hq c hc d hd
    obtain ⟨p, hp, rfl⟩ := List.mem_map.mp hq
    obtain ⟨e, he⟩ := List.exists_mem_of_ne_nil p (t.ne_nil p hp)
    rw [(hf p hp).2 c hc e he, (hf p hp).2 d hd e he]
  alternate := by
    rw [List.isChain_map]
    apply List.IsChain.imp_of_mem_imp _ t.alternate
    intro p q hp hq hdiff c hc d hd
    obtain ⟨e, he⟩ := List.exists_mem_of_ne_nil p (t.ne_nil p hp)
    obtain ⟨e', he'⟩ := List.exists_mem_of_ne_nil q (t.ne_nil q hq)
    rw [(hf p hp).2 c hc e he, (hf q hq).2 d hd e' he']
    exact hdiff e he e' he'

theorem over_blanks {f : List α → List α} (hblank : ∀ c l, blank c = true → f (c :: l) = c :: f l)
    {p : List α} (hp : ∀ c ∈ p, blank c = true) (l : List α) : f (p ++ l) = p ++ f l := by
  induction p with
  | nil => rfl
  | cons c p ih =>
      rw [List.cons_append, hblank c _ (hp c List.mem_cons_self),
        ih fun d hd => hp d (List.mem_cons_of_mem c hd)]
      rfl

/-- A function on texts that passes over blanks, and over a run of other symbols at a time,
works on the runs one by one. -/
theorem run_by_run {f g : List α → List α} (hnil : f [] = [])
    (hblank : ∀ c l, blank c = true → f (c :: l) = c :: f l)
    (hword : ∀ p l, p ≠ [] → (∀ c ∈ p, blank c = false) → (∀ c ∈ l.head?, blank c = true) →
      f (p ++ l) = g p ++ f l)
    (hg : ∀ p, p ≠ [] → (∀ c ∈ p, blank c = true) → g p = p) (t : Runs blank) :
    f t.text = (t.pieces.map g).flatten := by
  obtain ⟨ps, hne, huni, halt⟩ := t
  show f ps.flatten = (ps.map g).flatten
  induction ps with
  | nil => exact hnil
  | cons p ps ih =>
      have ih := ih (fun q hq => hne q (List.mem_cons_of_mem p hq))
        (fun q hq => huni q (List.mem_cons_of_mem p hq)) halt.tail
      have hp := hne p List.mem_cons_self
      obtain ⟨e, he⟩ := List.exists_mem_of_ne_nil p hp
      have hkind : ∀ c ∈ p, blank c = blank e := by
        intro c hc
        exact huni p List.mem_cons_self c hc e he
      rw [List.flatten_cons, List.map_cons, List.flatten_cons, ← ih]
      cases hb : blank e with
      | true =>
          have hblanks : ∀ c ∈ p, blank c = true := by
            intro c hc
            rw [hkind c hc, hb]
          rw [hg p hp hblanks]
          exact over_blanks hblank hblanks _
      | false =>
          apply hword p _ hp
          · intro c hc
            rw [hkind c hc, hb]
          · -- the next run is of the other kind
            intro c hc
            cases ps with
            | nil => cases hc
            | cons q ps =>
                have hq := hne q (List.mem_cons_of_mem p List.mem_cons_self)
                have hmem : c ∈ q := by
                  rw [List.flatten_cons, List.head?_append_of_ne_nil _ hq] at hc
                  exact List.mem_of_mem_head? hc
                have hdiff := halt.rel e he c hmem
                rw [hb] at hdiff
                cases hc' : blank c with
                | true => rfl
                | false => exact absurd hc'.symm hdiff

end Runs

end PackageHarness.Sequence
