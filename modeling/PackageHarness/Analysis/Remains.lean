/-
# PackageHarness.Analysis.Remains — what stays of a value on a line that is not covered.

A value that begins with the letter `x` and a blank loses the letter at the most in the first two
patterns. On a line that is not covered the key pattern then keeps its text up to the first separator
or line end: no match reaches it, or it stands in the part of a match that is kept.
-/
import PackageHarness.Analysis.KeyedLines
import PackageHarness.Text.Extent

namespace PackageHarness.Redaction

open Text Text.Regex

variable {c d : Char} {m s t u x y : List Char} {prev : Option Char} {found : Found}

/-! ## The first two patterns -/

/-- A header that begins before the letter `x` and a blank ends with the letter. -/
theorem header_stays_x (hs : ∀ c ∈ s.head?, isWhitespace c = true)
    (hlater : (s.dropWhile isWhitespace).head? ≠ some ':')
    (hfound : headerAt (t ++ 'x' :: s) = some found) : found.size ≤ t.length + 1 := by
  rcases header_stays rfl (by decide) hs hlater hfound with
    hshort | ⟨name, b₁, b₂, scheme, hsplit, -, -, -, hscheme⟩
  · exact hshort
  · -- No spelling of `Bearer` ends in that letter.
    obtain ⟨y, d, rfl, hd⟩ := Spells.last (l := "beare".toList) (c := 'r') hscheme
    have hlast := congrArg List.getLast? hsplit
    have hassoc : name ++ (b₁ ++ ':' :: (b₂ ++ (y ++ [d]))) = name ++ b₁ ++ ':' :: b₂ ++ y ++ [d] := by
      simp
    rw [hassoc, List.getLast?_concat, List.getLast?_concat] at hlast
    cases hlast
    cases hd

theorem unheaded_x (u : List Char) (hs : Opens s) (hcolon : s.head? ≠ some ':') :
    ∃ z, (z = [] ∨ z = ['x']) ∧
      unheaded u ('x' :: ' ' :: s) = z ++ ' ' :: authorizationPattern.replaceFrom 0 (some ' ') s := by
  have hdrop : (' ' :: s).dropWhile isWhitespace = s := by
    obtain ⟨c, y, rfl, hc⟩ := hs
    rw [List.dropWhile_cons_of_pos rfl, List.dropWhile_cons_of_neg (by simp [hc])]
  have hshort : authorizationPattern.overrun 0 none u ('x' :: ' ' :: s) ≤ 1 := by
    apply Rewrite.overrun_le (Nat.zero_le _)
    intro prev t _ _ found hfound
    rw [first_eq] at hfound
    apply header_stays_x _ (by rwa [hdrop]) hfound
    intro c hc
    cases hc
    rfl
  have hblank : ∀ prev, authorizationPattern.replaceFrom 0 prev (' ' :: s) =
      ' ' :: authorizationPattern.replaceFrom 0 (some ' ') s := fun prev =>
    Rewrite.replaceFrom_none (authorization_plain.idle ' ' prev s (Or.inl rfl))
  have hletter : authorizationPattern.first (lastOf none u) ('x' :: ' ' :: s) = none := by
    have hspelled : spelled sameLetter AUTHORIZATION ('x' :: ' ' :: s) = false := rfl
    rw [first_eq, headerAt, hspelled]
    rfl
  rw [unheaded]
  rcases Nat.le_one_iff_eq_zero_or_eq_one.mp hshort with hnone | hone
  · refine ⟨['x'], Or.inr rfl, ?_⟩
    rw [hnone, Rewrite.replaceFrom_none hletter, hblank]
    rfl
  · refine ⟨[], Or.inl rfl, ?_⟩
    rw [hone]
    exact hblank (some 'x')

variable (isWord : Char → Bool)

theorem overrun_bearer_le (hu : Edge u) (s : List Char) :
    (bearerPattern isWord).overrun 0 none u s ≤ (s.takeWhile isTokenChar).length := by
  apply Rewrite.overrun_le (Nat.zero_le _)
  rintro prev t hne ⟨x, hx⟩ found hfound
  exact bearer_size_le isWord hu hne hx hfound

/-- The first two patterns take no more than the letter, and read on behind the blank. -/
theorem residue_x (hu : Edge u) (hs : Opens s) (hcolon : s.head? ≠ some ':') :
    ∃ z, (z = [] ∨ z = ['x']) ∧ residue isWord u ('x' :: ' ' :: s) =
      z ++ ' ' :: (bearerPattern isWord).replaceFrom 0 (some ' ')
        (authorizationPattern.replaceFrom 0 (some ' ') s) := by
  have hedge := (hu.meets_headed (s := 'x' :: ' ' :: s) ⟨'x', _, rfl, rfl⟩).edge
  obtain ⟨z, hz, hfirst⟩ := unheaded_x u hs hcolon
  have hover := overrun_bearer_le isWord hedge (unheaded u ('x' :: ' ' :: s))
  have hblank : ∀ prev s, (bearerPattern isWord).replaceFrom 0 prev (' ' :: s) =
      ' ' :: (bearerPattern isWord).replaceFrom 0 (some ' ') s := fun prev s =>
    Rewrite.replaceFrom_none (bearer_idle isWord rfl prev s)
  rw [residue]
  rw [hfirst] at hover ⊢
  generalize authorizationPattern.replaceFrom 0 (some ' ') s = rest at hover ⊢
  rcases hz with rfl | rfl
  · refine ⟨[], Or.inl rfl, ?_⟩
    rw [Nat.le_zero.mp hover]
    exact hblank _ _
  · have hone : (bearerPattern isWord).overrun 0 none (headed u) (['x'] ++ ' ' :: rest) ≤ 1 := hover
    rcases Nat.le_one_iff_eq_zero_or_eq_one.mp hone with hnone | hone
    · refine ⟨['x'], Or.inr rfl, ?_⟩
      rw [hnone, List.singleton_append, Rewrite.replaceFrom_none (bearer_idle isWord rfl _ _), hblank]
      rfl
    · refine ⟨[], Or.inl rfl, ?_⟩
      rw [hone]
      exact hblank (some 'x') rest

/-! ## The key pattern -/

/-- Within a line the key pattern writes the text as it stands. -/
theorem written_line (hprev : lineStart prev none = false) (hu : ∀ c ∈ u, c ≠ '\n') (s : List Char) :
    keyValuePattern.written 0 prev u s = u := by
  induction u generalizing prev with
  | nil => rfl
  | cons c u ih =>
      obtain ⟨hc, hlater⟩ := List.forall_mem_cons.mp hu
      rw [Rewrite.written, keyValue_not_start hprev]
      exact congrArg (c :: ·) (ih (not_start hc) hlater)

/-- A match keeps the text up to the first separator. -/
theorem keyValue_kept (hm : ∀ c ∈ m, isSeparator c = false)
    (h : keyValuePattern.first prev (m ++ s) = some found) : ∃ e, found.kept = m ++ e := by
  obtain ⟨name, sep, blanks, hkept, hsep, -, -⟩ := keyValue_split h
  have htext : m ++ s = name ++ (sep :: (blanks ++ (found.dropped ++ found.behind))) := by
    rw [Rewrite.first_split h, hkept]
    simp
  rw [hkept]
  rcases List.append_eq_append_iff.mp htext with ⟨y, rfl, -⟩ | ⟨y, hy, hrest⟩
  · exact ⟨y ++ sep :: blanks, List.append_assoc _ _ _⟩
  · cases y with
    | nil => exact ⟨sep :: blanks, by rw [hy, List.append_nil]⟩
    | cons d y =>
        have hfalse := hm d (by rw [hy]; simp)
        rw [← (List.cons_eq_cons.mp hrest).1, hsep] at hfalse
        cases hfalse

/-- Behind a line that is not covered the text stays up to the first separator. -/
theorem keyValue_keeps (hmeets : Meets u (m ++ s)) (hstop : keyValuePattern.overrun 0 none u ['x'] = 0)
    (hne : m ≠ []) (hm : ∀ c ∈ m, isSeparator c = false ∧ c ≠ '\n') :
    ∃ a b, keyValuePattern.replaceAll (u ++ (m ++ s)) = a ++ (m ++ b) := by
  by_cases hover : keyValuePattern.overrun 0 none u (m ++ s) = 0
  · have hstart : lineStart (lastOf none u) none = false := by
      have hline := hmeets.edge.not_start (y := []) fun _ hc => absurd hc List.not_mem_nil
      rwa [List.append_nil] at hline
    have hline : ∀ c ∈ m, c ≠ '\n' := fun c hc => (hm c hc).2
    rw [Rewrite.replaceAll, Rewrite.replaceFrom_append, hover, Rewrite.replaceFrom_append,
      written_line hstart hline]
    exact ⟨_, _, rfl⟩
  · have hx : Meets u ['x'] := ⟨hmeets.edge, Or.inr ⟨'x', [], rfl, rfl⟩⟩
    obtain ⟨a, t, found, rfl, ht, harrives, hfirst, hlong⟩ :=
      Rewrite.exists_of_overrun hover (Nat.zero_le _)
    have hno : ∀ c ∈ t, isSeparator c = false := by
      intro c hc
      by_contra hsep
      have hmem : ∀ y : List Char, ∃ c ∈ y ++ t, isSeparator c = true :=
        fun y => ⟨c, List.mem_append_right y hc, by simpa using hsep⟩
      -- The match would begin before every other character too.
      have hagree : ∀ x y, y ≠ [] → x ++ y = a → Rewrite.AgreeEnds keyValuePattern (lastOf none x) y
          (t ++ (m ++ s)) (t ++ ['x']) := by
        rintro x y - rfl
        exact keyValue_agree (List.append_assoc _ _ _).symm hmeets hx (hmem y) (Or.inl ht)
      have hline : (m ++ s).takeWhile notNewline ≠ [] := by
        obtain ⟨d, y, rfl⟩ := List.exists_cons_of_ne_nil hne
        have hd : notNewline d = true := bne_iff_ne.mpr (hm d List.mem_cons_self).2
        rw [List.cons_append, List.takeWhile_cons_of_pos hd]
        exact List.cons_ne_nil _ _
      have hhere : Rewrite.AgreeEnds keyValuePattern (lastOf none a) t (m ++ s) ['x'] :=
        keyValue_agree (v := []) (by rw [List.append_nil]) hmeets hx
          (by rw [List.append_nil]; exact hmem []) (Or.inr ⟨hline, by decide⟩)
      rcases hhere with ⟨hnone, -⟩ | ⟨other, found', hother, hfound', -, hsize⟩
      · rw [hnone] at hfirst
        cases hfirst
      · rw [hfirst] at hother
        cases hother
        have hlong' : t.length < found'.size := by omega
        rw [Rewrite.overrun_append, (Rewrite.overrun_agree hagree (Or.inl rfl)).mp harrives,
          Rewrite.overrun_through hfound' ht (Nat.le_of_lt hlong')] at hstop
        omega
    have hboth : ∀ c ∈ t ++ m, isSeparator c = false :=
      List.forall_mem_append.mpr ⟨hno, fun c hc => (hm c hc).1⟩
    obtain ⟨e, he⟩ := keyValue_kept (s := s) hboth (by rwa [List.append_assoc])
    rw [Rewrite.replaceAll, List.append_assoc, Rewrite.replaceFrom_append, harrives,
      Rewrite.replaceFrom_found hfirst, he]
    refine ⟨keyValuePattern.written 0 none a (t ++ (m ++ s)) ++ t, e ++ (keyValuePattern.replacement ++
      keyValuePattern.replaceFrom 0 (lastOf (lastOf none a) (t ++ m ++ e ++ found.dropped))
        found.behind), ?_⟩
    simp only [List.append_assoc]

end PackageHarness.Redaction
