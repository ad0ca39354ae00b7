/-
# PackageHarness.Analysis.Headers — where the authorization pattern matches, and how far.

The pattern matches where the word, a colon and a value stand, with blanks between them. It takes one
word of the value; if that word is `Bearer` and another one follows, it takes this one too. The search
of the engine never has to come back from a longer attempt to a shorter one, so `headerAt` reads the
match from left to right.
-/
import Mathlib.Data.List.TakeWhile
import PackageHarness.Analysis.Patterns

namespace PackageHarness.Redaction

open Text Text.Regex

variable {c d : Char} {s s' t v x : List Char}

/-! ## Letters and blanks -/

/-- Only letters are folded. -/
theorem fold_of_not_alpha (h : c.isAlpha = false) (hs : c.toNat ≠ 0x17F) (hk : c.toNat ≠ 0x212A) :
    fold c = c := by
  rw [fold, if_neg hs, if_neg hk]
  exact toLower_of_not_alpha h

theorem fold_of_isWhitespace (h : isWhitespace c = true) : fold c = c := by
  have halpha : c.isAlpha = false := by
    cases hc : c.isAlpha with
    | false => rfl
    | true =>
        have hletter := isAlpha_iff.mp hc
        have hno : isWhitespace c = false := by
          apply not_isWhitespace_of_isAlphanum
          rw [isAlphanum_iff]
          omega
        rw [h] at hno
        cases hno
  apply fold_of_not_alpha halpha
  · intro hs
    have hno : isWhitespace c = false := by simp [isWhitespace, hs]
    rw [h] at hno
    cases hno
  · intro hk
    have hno : isWhitespace c = false := by simp [isWhitespace, hk]
    rw [h] at hno
    cases hno

theorem spells_iff : Spells sameLetter x s ↔ s.map fold = x := by
  induction x generalizing s with
  | nil =>
      constructor
      · intro h
        cases h
        rfl
      · intro h
        rw [List.map_eq_nil_iff.mp h]
        exact List.Forall₂.nil
  | cons c x ih =>
      cases s with
      | nil =>
          refine iff_of_false ?_ (by simp)
          intro h
          cases h
      | cons d s =>
          rw [List.map_cons, List.cons_eq_cons, ← ih]
          constructor
          · intro h
            cases h with
            | cons hd hx => exact ⟨beq_iff_eq.mp hd, hx⟩
          · rintro ⟨hd, hx⟩
            exact List.Forall₂.cons (beq_iff_eq.mpr hd) hx

theorem fold_of_toLower (hd : d.toNat ≤ 122) (h : c.toLower = d) : fold c = d := by
  have hcode : ∀ n, c.toNat = n → 122 < n → False := by
    intro n hn hlarge
    have halpha : c.isAlpha = false := by
      cases hc : c.isAlpha with
      | false => rfl
      | true =>
          have hrange := isAlpha_iff.mp hc
          omega
    rw [toLower_of_not_alpha halpha] at h
    rw [h] at hn
    omega
  rw [fold, if_neg fun hs => hcode _ hs (by decide), if_neg fun hk => hcode _ hk (by decide)]
  exact h

theorem spells_of_toLower (hx : x.all (fun c => c.toNat ≤ 122) = true)
    (h : s.map Char.toLower = x) : Spells sameLetter x s := by
  rw [spells_iff, ← h]
  apply List.map_congr_left
  intro c hc
  apply fold_of_toLower _ rfl
  have hmem : c.toLower ∈ x := by
    rw [← h]
    exact List.mem_map_of_mem hc
  simpa using List.all_eq_true.mp hx _ hmem

theorem toLower_of_spells (hx : ∀ c ∈ x, c ≠ 's' ∧ c ≠ 'k') (h : Spells sameLetter x s) :
    s.map Char.toLower = x := by
  have hfold := spells_iff.mp h
  rw [← hfold]
  apply List.map_congr_left
  intro c hc
  have hletter := hx (fold c) (by rw [← hfold]; exact List.mem_map_of_mem hc)
  rw [fold] at hletter ⊢
  split
  · next hs =>
      rw [if_pos hs] at hletter
      exact absurd rfl hletter.1
  · next hs =>
      rw [if_neg hs] at hletter
      split
      · next hk =>
          rw [if_pos hk] at hletter
          exact absurd rfl hletter.2
      · rfl

/-- No letter of a word without blanks is a blank. -/
theorem no_blank_of_spells (hx : ∀ c ∈ x, isWhitespace c = false) (h : Spells sameLetter x s) :
    ∀ c ∈ s, isWhitespace c = false := by
  intro c hc
  cases hblank : isWhitespace c with
  | false => rfl
  | true =>
      have hmem : c ∈ x := by
        rw [← spells_iff.mp h, ← fold_of_isWhitespace hblank]
        exact List.mem_map_of_mem hc
      rw [hx c hmem] at hblank
      cases hblank

def AUTHORIZATION : List Char := "authorization".toList

def BEARER : List Char := "bearer".toList

theorem authorization_ne_nil : AUTHORIZATION ≠ [] := by decide

theorem bearer_ne_nil : BEARER ≠ [] := by decide

theorem no_blank_authorization : ∀ c ∈ AUTHORIZATION, isWhitespace c = false := by
  have hall : AUTHORIZATION.all (fun c => !isWhitespace c) = true := rfl
  intro c hc
  simpa using List.all_eq_true.mp hall c hc

theorem no_blank_bearer : ∀ c ∈ BEARER, isWhitespace c = false := by
  have hall : BEARER.all (fun c => !isWhitespace c) = true := rfl
  intro c hc
  simpa using List.all_eq_true.mp hall c hc

/-- A text that begins with a character that is no blank. -/
def Opens (s : List Char) : Prop := ∃ c x, s = c :: x ∧ isWhitespace c = false

theorem Opens.append (hs : Opens s) (t : List Char) : Opens (s ++ t) := by
  obtain ⟨c, x, rfl, hc⟩ := hs
  exact ⟨c, x ++ t, rfl, hc⟩

theorem takeWhile_opens (t : List Char) (hs : Opens s) :
    (t ++ s).takeWhile isWhitespace = t.takeWhile isWhitespace := by
  obtain ⟨c, x, rfl, hc⟩ := hs
  induction t with
  | nil => simp [hc]
  | cons d t ih =>
      rw [List.cons_append, List.takeWhile_cons, List.takeWhile_cons, ih]

theorem dropWhile_opens (t : List Char) (hs : Opens s) :
    (t ++ s).dropWhile isWhitespace = t.dropWhile isWhitespace ++ s := by
  obtain ⟨c, x, rfl, hc⟩ := hs
  induction t with
  | nil => simp [hc]
  | cons d t ih =>
      rw [List.cons_append, List.dropWhile_cons, List.dropWhile_cons, ih]
      split <;> rfl

/-! ## The value -/

/-- What is taken of a value, and what is left: its first word, or `Bearer` and the next word. -/
def valueSplit (v : List Char) : List Char × List Char :=
  let next := (v.drop 6).dropWhile isWhitespace
  if spelled sameLetter BEARER v = true ∧ (v.drop 6).takeWhile isWhitespace ≠ [] ∧ next ≠ [] then
    (v.take 6 ++ (v.drop 6).takeWhile isWhitespace ++ next.takeWhile notWhitespace,
      next.dropWhile notWhitespace)
  else (v.takeWhile notWhitespace, v.dropWhile notWhitespace)

/-- The match behind the name and the blanks that follow it. -/
def headerFrom (name blanks : List Char) : List Char → Option Found
  | [] => none
  | c :: rest =>
      if c = ':' ∧ rest.dropWhile isWhitespace ≠ [] then
        some {
          kept := name ++ (blanks ++ ':' :: rest.takeWhile isWhitespace)
          dropped := (valueSplit (rest.dropWhile isWhitespace)).1
          behind := (valueSplit (rest.dropWhile isWhitespace)).2
        }
      else none

/-- The match at the start of a text, if there is one. -/
def headerAt (s : List Char) : Option Found :=
  if spelled sameLetter AUTHORIZATION s then
    headerFrom (s.take 13) ((s.drop 13).takeWhile isWhitespace) ((s.drop 13).dropWhile isWhitespace)
  else none

/-! ## The match -/

theorem dropWhile_ne_nil {p : Char → Bool} {l : List Char} (h : s.dropWhile p = c :: l) :
    p c = false := by
  have hhead := List.head?_dropWhile_not p s
  rw [h] at hhead
  exact hhead

/-- A value is not read from a blank. -/
theorem plus_notWhitespace_blank (hc : isWhitespace c = true) (prev : Option Char) :
    (plus notWhitespace).runs prev (c :: s) = [] := by
  rw [runs_plus_cons, notWhitespace, hc]
  rfl

theorem spelled_blank (hne : x ≠ []) (hx : ∀ d ∈ x, isWhitespace d = false)
    (hc : isWhitespace c = true) : spelled sameLetter x (c :: s) = false := by
  cases h : spelled sameLetter x (c :: s) with
  | false => rfl
  | true =>
      obtain ⟨y, rest, hs, hy⟩ := spelled_iff.mp h
      have hno := no_blank_of_spells hx hy
      cases hy with
      | nil => exact absurd rfl hne
      | cons hd hrest =>
          obtain ⟨rfl, -⟩ := List.cons_eq_cons.mp hs
          rw [hno c List.mem_cons_self] at hc
          cases hc

/-- The ways to read a value that begins with `Bearer`. -/
theorem bearer_runs_head? (prev : Option Char) (v : List Char) :
    (((seq (spell sameLetter BEARER) (plus isWhitespace)).runs prev v).flatMap fun run =>
        ((plus notWhitespace).runs (lastOf prev run.1) run.2).map fun later =>
          (run.1 ++ later.1, later.2)).head? =
      if spelled sameLetter BEARER v = true ∧ (v.drop 6).takeWhile isWhitespace ≠ [] ∧
          (v.drop 6).dropWhile isWhitespace ≠ [] then some (valueSplit v) else none := by
  rw [seq_flatMap, runs_spell]
  split
  case isFalse hspelled =>
    rw [if_neg fun h => hspelled h.1]
    rfl
  case isTrue hspelled =>
    rw [List.flatMap_singleton, plus_flatMap]
    · show (if (v.drop 6).takeWhile isWhitespace = [] then _ else _ : List _).head? = _
      split
      case isTrue hblank =>
        rw [if_neg fun h => h.2.1 hblank]
        rfl
      case isFalse hblank =>
        show List.head? (List.map _ ((plus notWhitespace).runs _ ((v.drop 6).dropWhile _))) = _
        rw [List.head?_map, plus_head?]
        cases hnext : (v.drop 6).dropWhile isWhitespace with
        | nil =>
            have hempty : ([] : List Char).takeWhile notWhitespace = [] := rfl
            rw [if_pos hempty, if_neg fun h => h.2.2 rfl]
            rfl
        | cons c l =>
            have hword : notWhitespace c = true := by
              rw [notWhitespace, dropWhile_ne_nil hnext]
              rfl
            have htaken : (c :: l).takeWhile notWhitespace ≠ [] := by
              rw [List.takeWhile_cons_of_pos hword]
              exact List.cons_ne_nil _ _
            have hbearer : valueSplit v = (v.take 6 ++ (v.drop 6).takeWhile isWhitespace ++
                (c :: l).takeWhile notWhitespace, (c :: l).dropWhile notWhitespace) := by
              simp only [valueSplit, hnext]
              exact if_pos ⟨hspelled, hblank, List.cons_ne_nil c l⟩
            rw [if_neg htaken, if_pos ⟨hspelled, hblank, List.cons_ne_nil c l⟩, hbearer]
            rfl
    · intro x c rest hc
      rw [plus_notWhitespace_blank hc]
      rfl

theorem value_runs_blank (hc : isWhitespace c = true) (prev : Option Char) :
    authorizationPattern.rest.runs prev (c :: s) = [] := by
  show List.flatMap _ ((spell sameLetter BEARER).seq (plus isWhitespace) |>.alt empty |>.runs prev
    (c :: s)) = []
  rw [runs, List.flatMap_append, seq_flatMap, runs_spell,
    spelled_blank bearer_ne_nil no_blank_bearer hc]
  show List.map _ ((plus notWhitespace).runs prev (c :: s)) ++ [] = []
  rw [plus_notWhitespace_blank hc]
  rfl

theorem value_runs_head? (prev : Option Char) (hv : Opens v) :
    (authorizationPattern.rest.runs prev v).head? = some (valueSplit v) := by
  obtain ⟨c, x, rfl, hc⟩ := hv
  have hword : notWhitespace c = true := by
    rw [notWhitespace, hc]
    rfl
  show List.head? (List.flatMap _ ((spell sameLetter BEARER).seq (plus isWhitespace) |>.alt empty
    |>.runs prev (c :: x))) = _
  rw [runs, List.flatMap_append, List.head?_append, bearer_runs_head?]
  split
  case isTrue => rfl
  case isFalse hplain =>
    show List.head? (List.map _ ((plus notWhitespace).runs prev (c :: x)) ++ []) = _
    rw [List.append_nil, List.head?_map, plus_head?, if_neg, valueSplit, if_neg hplain]
    · rfl
    · rw [List.takeWhile_cons_of_pos hword]
      exact List.cons_ne_nil _ _

/-- What follows the name matches in one way only. -/
theorem first_eq (prev : Option Char) (s : List Char) :
    authorizationPattern.first prev s = headerAt s := by
  have hblocked : ∀ x c (rest : List Char), isWhitespace c = true →
      (List.map (fun later : List Char × List Char => (⟨x, later.1, later.2⟩ : Found))
        (authorizationPattern.rest.runs (lastOf prev x) (c :: rest))) = [] := by
    intro x c rest hc
    rw [value_runs_blank hc]
    rfl
  show List.head? (List.flatMap _ (Regex.runs (seq (spell sameLetter AUTHORIZATION)
    (seq (many isWhitespace) (seq (one (exactly ':')) (many isWhitespace)))) prev s)) = _
  rw [seq_flatMap, runs_spell, headerAt]
  split
  case isFalse => rfl
  case isTrue =>
    rw [List.flatMap_singleton, seq_flatMap]
    show List.head? (List.flatMap _ (manyRuns isWhitespace (s.drop 13))) = _
    rw [manyRuns_flatMap]
    · rw [seq_flatMap]
      cases hcolon : (s.drop 13).dropWhile isWhitespace with
      | nil => rfl
      | cons c rest =>
          show List.head? (List.flatMap _ (oneRuns _ (c :: rest))) =
            if c = ':' ∧ _ then _ else none
          rw [oneRuns]
          split
          case isFalse hc =>
            rw [if_neg]
            · rfl
            · rintro ⟨rfl, -⟩
              exact hc rfl
          case isTrue hc =>
            have hc' : c = ':' := beq_iff_eq.mp hc
            subst hc'
            rw [List.flatMap_singleton]
            show List.head? (List.flatMap _ (manyRuns isWhitespace rest)) = _
            rw [manyRuns_flatMap]
            · rw [List.head?_map]
              cases hvalue : rest.dropWhile isWhitespace with
              | nil =>
                  rw [if_neg fun h => h.2 rfl]
                  rfl
              | cons d value =>
                  have hopens : Opens (d :: value) := ⟨d, value, rfl, dropWhile_ne_nil hvalue⟩
                  rw [value_runs_head? _ hopens, if_pos ⟨rfl, List.cons_ne_nil d value⟩]
                  rfl
            · intro x d later hd
              exact hblocked _ d later hd
    · intro x d later hd
      rw [seq_flatMap]
      show List.flatMap _ (oneRuns _ (d :: later)) = []
      rw [oneRuns, if_neg]
      · rfl
      · intro hd'
        have hcolon : d = ':' := beq_iff_eq.mp hd'
        rw [hcolon] at hd
        cases hd

/-! ## Two texts behind the same beginning -/

theorem takeWhile_word_agree (t : List Char) (hs : Opens s) (hs' : Opens s') :
    ((t ++ s).takeWhile notWhitespace).length = ((t ++ s').takeWhile notWhitespace).length ∨
      t.length < ((t ++ s).takeWhile notWhitespace).length ∧
        t.length < ((t ++ s').takeWhile notWhitespace).length := by
  obtain ⟨c, x, rfl, hc⟩ := hs
  obtain ⟨c', x', rfl, hc'⟩ := hs'
  induction t with
  | nil => simp [notWhitespace, hc, hc']
  | cons d t ih =>
      rw [List.cons_append, List.cons_append, List.takeWhile_cons, List.takeWhile_cons]
      split
      · simp only [List.length_cons]
        omega
      · exact Or.inl rfl

theorem length_lt_takeWhile_word (ht : ∀ c ∈ t, isWhitespace c = false) (hs : Opens s) :
    t.length < ((t ++ s).takeWhile notWhitespace).length := by
  obtain ⟨c, x, rfl, hc⟩ := hs
  have hall : ∀ d ∈ t, notWhitespace d = true := fun d hd => by rw [notWhitespace, ht d hd]; rfl
  rw [List.takeWhile_append_of_pos hall, List.takeWhile_cons_of_pos (by rw [notWhitespace, hc]; rfl)]
  simp

/-- A beginning long enough to show whether the value begins with `Bearer`. -/
theorem length_valueSplit_append (ht : 6 ≤ t.length) (hs : Opens s) :
    (valueSplit (t ++ s)).1.length =
      if spelled sameLetter BEARER t = true ∧ (t.drop 6).takeWhile isWhitespace ≠ [] then
        6 + ((t.drop 6).takeWhile isWhitespace).length +
          (((t.drop 6).dropWhile isWhitespace ++ s).takeWhile notWhitespace).length
      else ((t ++ s).takeWhile notWhitespace).length := by
  have hne : (t.drop 6).dropWhile isWhitespace ++ s ≠ [] := by
    obtain ⟨c, x, rfl, -⟩ := hs
    simp
  have hspelled : spelled sameLetter BEARER (t ++ s) = spelled sameLetter BEARER t :=
    spelled_append (l := BEARER) ht s
  simp only [valueSplit, List.drop_append_of_le_length ht, List.take_append_of_le_length ht,
    takeWhile_opens _ hs, dropWhile_opens _ hs, hspelled]
  by_cases hbearer : spelled sameLetter BEARER t = true ∧
      (t.drop 6).takeWhile isWhitespace ≠ []
  · rw [if_pos ⟨hbearer.1, hbearer.2, hne⟩, if_pos hbearer]
    simp only [List.length_append, List.length_take]
    omega
  · rw [if_neg fun h => hbearer ⟨h.1, h.2.1⟩, if_neg hbearer]

theorem valueSplit_short (ht : t.length < 6) :
    (∀ s, (valueSplit (t ++ s)).1 = (t ++ s).takeWhile notWhitespace) ∨
      ∀ s, Opens s → t.length < (valueSplit (t ++ s)).1.length := by
  by_cases hblank : ∃ c ∈ t, isWhitespace c = true
  · left
    intro s
    obtain ⟨c, hc, hwhite⟩ := hblank
    rw [valueSplit, if_neg]
    rintro ⟨hspelled, -⟩
    obtain ⟨x, rest, hsplit, hx⟩ := spelled_iff.mp hspelled
    have hlength : x.length = 6 := hx.length_eq.symm
    have hbegins : t <+: x := by
      apply List.prefix_of_prefix_length_le (List.prefix_append t s)
      · rw [hsplit]
        exact List.prefix_append x rest
      · omega
    have hno := no_blank_of_spells no_blank_bearer hx c (hbegins.subset hc)
    rw [hwhite] at hno
    cases hno
  · right
    intro s hs
    have hword : ∀ c ∈ t, isWhitespace c = false := by
      intro c hc
      cases h : isWhitespace c with
      | false => rfl
      | true => exact absurd ⟨c, hc, h⟩ hblank
    have hlong := length_lt_takeWhile_word hword hs
    rw [valueSplit]
    split
    · next hbearer =>
        obtain ⟨x, rest, hsplit, hx⟩ := spelled_iff.mp hbearer.1
        have hlength : x.length = 6 := hx.length_eq.symm
        have htotal : 6 ≤ (t ++ s).length := by
          rw [hsplit, List.length_append]
          omega
        simp only [List.length_append, List.length_take] at htotal ⊢
        omega
    · exact hlong

theorem valueSplit_agree (t : List Char) (hs : Opens s) (hs' : Opens s') :
    (valueSplit (t ++ s)).1.length = (valueSplit (t ++ s')).1.length ∨
      t.length < (valueSplit (t ++ s)).1.length ∧ t.length < (valueSplit (t ++ s')).1.length := by
  by_cases ht : 6 ≤ t.length
  · rw [length_valueSplit_append ht hs, length_valueSplit_append ht hs']
    split
    · have hagree := takeWhile_word_agree ((t.drop 6).dropWhile isWhitespace) hs hs'
      have hlength := congrArg List.length
        (List.takeWhile_append_dropWhile (p := isWhitespace) (l := t.drop 6))
      rw [List.length_append, List.length_drop] at hlength
      omega
    · exact takeWhile_word_agree t hs hs'
  · rcases valueSplit_short (Nat.lt_of_not_le ht) with hplain | hlong
    · rw [hplain, hplain]
      exact takeWhile_word_agree t hs hs'
    · exact Or.inr ⟨hlong s hs, hlong s' hs'⟩

/-- A place from which the name and the colon of a header are not read across the seam. -/
structure Seam (t s : List Char) : Prop where
  opens : Opens s
  name : spelled sameLetter AUTHORIZATION (t ++ s) = true → 13 ≤ t.length
  colon : spelled sameLetter AUTHORIZATION t = true → (t.drop 13).dropWhile isWhitespace = [] →
    s.head? ≠ some ':'

theorem headerFrom_append (name blanks : List Char) (c : Char) (t : List Char) (hs : Opens s) :
    headerFrom name blanks (c :: t ++ s) =
      if c = ':' then
        some {
          kept := name ++ (blanks ++ ':' :: t.takeWhile isWhitespace)
          dropped := (valueSplit (t.dropWhile isWhitespace ++ s)).1
          behind := (valueSplit (t.dropWhile isWhitespace ++ s)).2
        }
      else none := by
  have hne : t.dropWhile isWhitespace ++ s ≠ [] := by
    obtain ⟨c, x, rfl, -⟩ := hs
    simp
  rw [List.cons_append, headerFrom, takeWhile_opens t hs, dropWhile_opens t hs]
  by_cases hc : c = ':'
  · rw [if_pos ⟨hc, hne⟩, if_pos hc]
  · rw [if_neg fun h => hc h.1, if_neg hc]

theorem headerFrom_none (name blanks : List Char) (hcolon : s.head? ≠ some ':') :
    headerFrom name blanks s = none := by
  cases s with
  | nil => rfl
  | cons c s => exact if_neg fun h => hcolon (congrArg some h.1)

theorem headerAt_append (ht : 13 ≤ t.length) (hs : Opens s) :
    headerAt (t ++ s) =
      if spelled sameLetter AUTHORIZATION t then
        headerFrom (t.take 13) ((t.drop 13).takeWhile isWhitespace)
          ((t.drop 13).dropWhile isWhitespace ++ s)
      else none := by
  have hspelled : spelled sameLetter AUTHORIZATION (t ++ s) = spelled sameLetter AUTHORIZATION t :=
    spelled_append (l := AUTHORIZATION) ht s
  rw [headerAt, hspelled, List.drop_append_of_le_length ht, List.take_append_of_le_length ht,
    takeWhile_opens _ hs, dropWhile_opens _ hs]

theorem headerAt_blank (hc : isWhitespace c = true) : headerAt (c :: s) = none := by
  have hspelled : spelled sameLetter AUTHORIZATION (c :: s) = false :=
    spelled_blank authorization_ne_nil no_blank_authorization hc
  rw [headerAt, hspelled]
  rfl

theorem header_agree (hs : Seam t s) (hs' : Seam t s') (prev : Option Char) :
    Rewrite.AgreeEnds authorizationPattern prev t s s' := by
  rw [Rewrite.AgreeEnds, first_eq, first_eq]
  by_cases ht : 13 ≤ t.length
  · rw [headerAt_append ht hs.opens, headerAt_append ht hs'.opens]
    split
    case isFalse => exact Or.inl ⟨rfl, rfl⟩
    case isTrue hspelled =>
      have hname := congrArg List.length
        (List.takeWhile_append_dropWhile (p := isWhitespace) (l := t.drop 13))
      cases hcolon : (t.drop 13).dropWhile isWhitespace with
      | nil =>
          left
          exact ⟨headerFrom_none _ _ (hs.colon hspelled hcolon),
            headerFrom_none _ _ (hs'.colon hspelled hcolon)⟩
      | cons c rest =>
          rw [headerFrom_append _ _ c rest hs.opens, headerFrom_append _ _ c rest hs'.opens]
          by_cases hc : c = ':'
          · right
            rw [if_pos hc, if_pos hc]
            refine ⟨_, _, rfl, rfl, rfl, ?_⟩
            have hagree := valueSplit_agree (rest.dropWhile isWhitespace) hs.opens hs'.opens
            have hrest := congrArg List.length
              (List.takeWhile_append_dropWhile (p := isWhitespace) (l := rest))
            rw [hcolon] at hname
            simp only [Found.size, List.length_append, List.length_cons, List.length_take,
              List.length_drop] at hname hrest ⊢
            omega
          · left
            rw [if_neg hc, if_neg hc]
            exact ⟨rfl, rfl⟩
  · left
    have hname : ¬ spelled sameLetter AUTHORIZATION (t ++ s) = true := fun h => ht (hs.name h)
    have hname' : ¬ spelled sameLetter AUTHORIZATION (t ++ s') = true := fun h => ht (hs'.name h)
    rw [headerAt, headerAt, if_neg hname, if_neg hname']
    exact ⟨rfl, rfl⟩

/-! ## A match that does not pass a blank -/

/-- A word without blanks that is read before a blank is read there as a whole. -/
theorem length_le_of_spelled (hx : ∀ c ∈ x, isWhitespace c = false)
    (hs : ∀ c ∈ s.head?, isWhitespace c = true) (h : spelled sameLetter x (t ++ s) = true) :
    x.length ≤ t.length := by
  obtain ⟨y, rest, hsplit, hy⟩ := spelled_iff.mp h
  have hlength : x.length = y.length := hy.length_eq
  by_contra hshort
  have hbegins : t <+: y := by
    apply List.prefix_of_prefix_length_le (List.prefix_append t s)
    · rw [hsplit]
      exact List.prefix_append y rest
    · omega
  obtain ⟨z, rfl⟩ := hbegins
  cases z with
  | nil =>
      rw [List.append_nil] at hlength
      omega
  | cons c z =>
      rw [List.append_assoc, List.append_cancel_left_eq] at hsplit
      have hblank := hs c (by rw [hsplit]; rfl)
      have hno := no_blank_of_spells hx hy c (by simp)
      rw [hblank] at hno
      cases hno

theorem spells_of_spelled (hlength : t.length = x.length)
    (h : spelled sameLetter x (t ++ s) = true) : Spells sameLetter x t := by
  rw [spelled_append (Nat.le_of_eq hlength.symm)] at h
  obtain ⟨y, rest, hsplit, hy⟩ := spelled_iff.mp h
  have hrest : rest = [] := by
    have htotal := congrArg List.length hsplit
    have hspelled : x.length = y.length := hy.length_eq
    rw [List.length_append] at htotal
    exact List.eq_nil_of_length_eq_zero (by omega)
  rw [hsplit, hrest, List.append_nil]
  exact hy

theorem valueSplit_stays {e : Char} (he : isWhitespace e = false)
    (hs : ∀ c ∈ s.head?, isWhitespace c = true) (v : List Char) :
    (valueSplit (v ++ e :: s)).1.length ≤ v.length + 1 ∨ Spells sameLetter BEARER (v ++ [e]) := by
  have hstop : ∀ c ∈ s.head?, notWhitespace c = false := fun c hc => by rw [notWhitespace, hs c hc]; rfl
  have hword : ∀ u : List Char, ((u ++ e :: s).takeWhile notWhitespace).length ≤ u.length + 1 := by
    intro u
    have hle := length_takeWhile_le (x := u ++ [e]) hstop
    rw [List.append_assoc, List.length_append] at hle
    exact hle
  by_cases hspelled : spelled sameLetter BEARER (v ++ e :: s) = true
  · have hassoc : v ++ e :: s = v ++ [e] ++ s := by rw [List.append_assoc]; rfl
    rw [hassoc] at hspelled
    have hlong : 6 ≤ (v ++ [e]).length := length_le_of_spelled no_blank_bearer hs hspelled
    by_cases hv : 6 ≤ v.length
    · left
      have hopens : Opens (e :: s) := ⟨e, s, rfl, he⟩
      rw [length_valueSplit_append hv hopens]
      split
      · have hlater := hword ((v.drop 6).dropWhile isWhitespace)
        have hrest := congrArg List.length
          (List.takeWhile_append_dropWhile (p := isWhitespace) (l := v.drop 6))
        rw [List.length_append, List.length_drop] at hrest
        omega
      · exact hword v
    · right
      rw [List.length_append, List.length_singleton] at hlong
      apply spells_of_spelled _ hspelled
      show (v ++ [e]).length = 6
      rw [List.length_append, List.length_singleton]
      omega
  · left
    rw [valueSplit, if_neg fun h => hspelled h.1]
    exact hword v

/-- A match that begins before a blank ends before it, unless its value is `Bearer` and the blank
follows that. -/
theorem header_stays {e : Char} {found : Found} (he : isWhitespace e = false) (hcolon : e ≠ ':')
    (hs : ∀ c ∈ s.head?, isWhitespace c = true) (hlater : (s.dropWhile isWhitespace).head? ≠ some ':')
    (h : headerAt (t ++ e :: s) = some found) :
    found.size ≤ t.length + 1 ∨ ∃ name b₁ b₂ scheme, t ++ [e] = name ++ (b₁ ++ ':' :: (b₂ ++ scheme)) ∧
      Spells sameLetter AUTHORIZATION name ∧ (∀ c ∈ b₁, isWhitespace c = true) ∧ (∀ c ∈ b₂, isWhitespace c = true) ∧
        Spells sameLetter BEARER scheme := by
  have hspelled : spelled sameLetter AUTHORIZATION (t ++ e :: s) = true := by
    rw [headerAt] at h
    split at h
    · assumption
    · cases h
  have hassoc : t ++ e :: s = t ++ [e] ++ s := by rw [List.append_assoc]; rfl
  have hlong : 13 ≤ (t ++ [e]).length := by
    rw [hassoc] at hspelled
    exact length_le_of_spelled no_blank_authorization hs hspelled
  rw [List.length_append, List.length_singleton] at hlong
  by_cases ht : 13 ≤ t.length
  · have hopens : Opens (e :: s) := ⟨e, s, rfl, he⟩
    rw [headerAt_append ht hopens, if_pos (by rwa [← spelled_append (l := AUTHORIZATION) ht])] at h
    have hname := List.takeWhile_append_dropWhile (p := isWhitespace) (l := t.drop 13)
    cases hafter : (t.drop 13).dropWhile isWhitespace with
    | nil =>
        have hhead : (e :: s).head? ≠ some ':' := fun h => hcolon (Option.some.inj h)
        rw [hafter, List.nil_append, headerFrom_none _ _ hhead] at h
        cases h
    | cons c rest =>
        rw [hafter, headerFrom_append _ _ c rest hopens] at h
        split at h
        case isFalse => cases h
        case isTrue hc =>
          cases h
          have hrest := List.takeWhile_append_dropWhile (p := isWhitespace) (l := rest)
          rw [hafter] at hname
          rcases valueSplit_stays he hs (rest.dropWhile isWhitespace) with hshort | hbearer
          · left
            have hnameLength := congrArg List.length hname
            have hrestLength := congrArg List.length hrest
            simp only [Found.size, List.length_append, List.length_cons, List.length_take,
              List.length_drop] at hnameLength hrestLength ⊢
            omega
          · right
            refine ⟨t.take 13, (t.drop 13).takeWhile isWhitespace, rest.takeWhile isWhitespace,
              rest.dropWhile isWhitespace ++ [e], ?_, ?_, ?_, ?_, hbearer⟩
            · calc t ++ [e] = t.take 13 ++ ((t.drop 13).takeWhile isWhitespace ++ c :: rest) ++ [e] := by
                    rw [hname, List.take_append_drop]
                _ = t.take 13 ++ ((t.drop 13).takeWhile isWhitespace ++ ':' ::
                      (rest.takeWhile isWhitespace ++ (rest.dropWhile isWhitespace ++ [e]))) := by
                    rw [← List.append_assoc (rest.takeWhile _), hrest, hc]
                    simp
            · apply spells_of_spelled (s := t.drop 13 ++ e :: s)
              · rw [List.length_take]
                exact Nat.min_eq_left ht
              · rw [← List.append_assoc, List.take_append_drop]
                exact hspelled
            · exact fun d hd => List.mem_takeWhile_imp hd
            · exact fun d hd => List.mem_takeWhile_imp hd
  · have hlength : (t ++ [e]).length = 13 := by
      rw [List.length_append, List.length_singleton]
      omega
    rw [headerAt, if_pos hspelled, hassoc, List.drop_left' hlength, headerFrom_none _ _ hlater] at h
    cases h

end PackageHarness.Redaction
