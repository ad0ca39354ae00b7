/-
# PackageHarness.Guarantees.LongTokens — long opaque tokens are replaced, and nothing else.

`redactLongTokens` cuts a text after every whitespace character and trims each piece again. Read
over the maximal runs of the text, it leaves every run of whitespace and every ordinary token as
it stands and puts the mark in the place of each token that looks like a secret. The mark does not
look like one itself, so a second pass finds nothing.
-/
import Mathlib.Data.List.TakeWhile
import PackageHarness.Analysis.Redaction
import PackageHarness.Sequence.Runs

namespace PackageHarness.Redaction

open Sequence

variable {c : Char} {p l : List Char}

/-! ## What looks like a secret -/

theorem looksSecret_iff (p : List Char) :
    looksSecret p = true ↔
      48 ≤ (p.map Char.utf8Size).sum ∧
        (∀ c ∈ p, c.isAlphanum = true ∨ c ∈ ['+', '/', '=', '_', '-', '.']) ∧
        (∃ c ∈ p, c.isDigit = true) ∧ ∃ c ∈ p, c.isAlpha = true := by
  simp [looksSecret, and_assoc]

theorem looksSecret_nil : looksSecret [] = false := rfl

/-- Every character of a secret-looking token is no whitespace. -/
theorem no_blank_of_looksSecret (h : looksSecret p = true) : ∀ c ∈ p, isWhitespace c = false := by
  intro c hc
  rcases ((looksSecret_iff p).mp h).2.1 c hc with halnum | hmark
  · exact not_isWhitespace_of_isAlphanum halnum
  · simp only [List.mem_cons, List.not_mem_nil, or_false] at hmark
    rcases hmark with rfl | rfl | rfl | rfl | rfl | rfl <;> rfl

theorem looksSecret_redacted : looksSecret REDACTED.toList = false := by decide

theorem no_blank_redacted : ∀ c ∈ REDACTED.toList, isWhitespace c = false := by
  have hall : REDACTED.toList.all (fun c => !isWhitespace c) = true := rfl
  intro c hc
  simpa using List.all_eq_true.mp hall c hc

/-! ## One piece of the split -/

/-- What becomes of one token. -/
def redactToken (token : List Char) : List Char :=
  if looksSecret token then REDACTED.toList else token

/-- What becomes of one piece of the split. -/
def redactPart (part : List Char) : List Char :=
  let suffix := (part.reverse.takeWhile isWhitespace).reverse
  let token := part.take (part.length - suffix.length)
  if looksSecret token then REDACTED.toList ++ suffix else part

/-- The rewriting of a text, on its characters. -/
def redactChars (l : List Char) : List Char := (splitInclusive l).flatMap redactPart

theorem redactLongTokens_eq (s : String) :
    redactLongTokens s = String.ofList (redactChars s.toList) := rfl

theorem looksSecret_redactToken (p : List Char) : looksSecret (redactToken p) = false := by
  rw [redactToken]
  split
  case isTrue => exact looksSecret_redacted
  case isFalse h => exact Bool.eq_false_iff.mpr h

theorem redactToken_of_looksSecret_false (h : looksSecret p = false) : redactToken p = p := by
  rw [redactToken, h]
  rfl

theorem redactToken_blank (hne : p ≠ []) (hp : ∀ c ∈ p, isWhitespace c = true) :
    redactToken p = p := by
  obtain ⟨c, hc⟩ := List.exists_mem_of_ne_nil p hne
  apply redactToken_of_looksSecret_false
  cases h : looksSecret p with
  | false => rfl
  | true =>
      have hno := no_blank_of_looksSecret h c hc
      rw [hp c hc] at hno
      cases hno

theorem redactToken_ne_nil (hne : p ≠ []) : redactToken p ≠ [] := by
  rw [redactToken]
  split
  · decide
  · exact hne

/-- The mark stands for a token, never for whitespace, so the kind of a run is kept. -/
theorem redactToken_kind (p : List Char) :
    ∀ c ∈ redactToken p, ∀ d ∈ p, (∀ e ∈ p, isWhitespace e = isWhitespace d) →
      isWhitespace c = isWhitespace d := by
  intro c hc d hd huni
  rw [redactToken] at hc
  split at hc
  case isTrue h =>
      rw [no_blank_of_looksSecret h d hd, no_blank_redacted c hc]
  case isFalse => exact huni c hc

/-! ## The split, from run to run -/

theorem splitInclusive_blank (h : isWhitespace c = true) (l : List Char) :
    splitInclusive (c :: l) = [c] :: splitInclusive l := by
  rw [splitInclusive, if_pos h]

theorem splitInclusive_word (hne : p ≠ []) (hp : ∀ c ∈ p, isWhitespace c = false) :
    splitInclusive p = [p] := by
  induction p with
  | nil => exact absurd rfl hne
  | cons a p ih =>
      rw [splitInclusive, if_neg (by rw [hp a List.mem_cons_self]; decide)]
      cases p with
      | nil => rfl
      | cons b p =>
          rw [ih (List.cons_ne_nil b p) fun d hd => hp d (List.mem_cons_of_mem a hd)]

theorem splitInclusive_word_blank (hp : ∀ c ∈ p, isWhitespace c = false)
    (hc : isWhitespace c = true) (l : List Char) :
    splitInclusive (p ++ c :: l) = (p ++ [c]) :: splitInclusive l := by
  induction p with
  | nil => exact splitInclusive_blank hc l
  | cons a p ih =>
      rw [List.cons_append, splitInclusive, if_neg (by rw [hp a List.mem_cons_self]; decide),
        ih fun d hd => hp d (List.mem_cons_of_mem a hd)]
      rfl

theorem trailing_blanks_word (hp : ∀ c ∈ p, isWhitespace c = false) :
    p.reverse.takeWhile isWhitespace = [] := by
  rw [List.takeWhile_eq_nil_iff]
  intro hlen
  rw [hp _ (List.mem_reverse.mp (List.get_mem _ ⟨0, hlen⟩))]
  decide

theorem redactPart_word (hp : ∀ c ∈ p, isWhitespace c = false) : redactPart p = redactToken p := by
  simp only [redactPart, trailing_blanks_word hp, List.reverse_nil, List.length_nil, Nat.sub_zero, List.take_length,
    List.append_nil]
  rfl

theorem redactPart_word_blank (hp : ∀ c ∈ p, isWhitespace c = false)
    (hc : isWhitespace c = true) : redactPart (p ++ [c]) = redactToken p ++ [c] := by
  have hsuffix : (p ++ [c]).reverse.takeWhile isWhitespace = [c] := by
    rw [List.reverse_append, List.reverse_singleton, List.singleton_append,
      List.takeWhile_cons_of_pos hc, trailing_blanks_word hp]
  have htoken : (p ++ [c]).take ((p ++ [c]).length - [c].length) = p := by
    rw [List.length_append, Nat.add_sub_cancel, List.take_left]
  simp only [redactPart, hsuffix, List.reverse_singleton, htoken, redactToken]
  split <;> rfl

theorem redactChars_blank (h : isWhitespace c = true) (l : List Char) :
    redactChars (c :: l) = c :: redactChars l := by
  have hpart := redactPart_word_blank (p := []) (by intro d hd; cases hd) h
  rw [List.nil_append, redactToken_of_looksSecret_false looksSecret_nil, List.nil_append] at hpart
  rw [redactChars, splitInclusive_blank h, List.flatMap_cons, hpart]
  rfl

theorem redactChars_word (hne : p ≠ []) (hp : ∀ c ∈ p, isWhitespace c = false)
    (hl : ∀ c ∈ l.head?, isWhitespace c = true) :
    redactChars (p ++ l) = redactToken p ++ redactChars l := by
  cases l with
  | nil =>
      rw [List.append_nil, redactChars, splitInclusive_word hne hp, List.flatMap_cons,
        redactPart_word hp]
      rfl
  | cons c l =>
      have hc := hl c rfl
      rw [redactChars_blank hc, redactChars, splitInclusive_word_blank hp hc, List.flatMap_cons,
        redactPart_word_blank hp hc, List.append_assoc]
      rfl

/-- The rewriting of a text is the rewriting of its runs. -/
theorem redactChars_text (t : Runs isWhitespace) :
    redactChars t.text = (t.pieces.map redactToken).flatten :=
  Runs.run_by_run rfl (fun _ l h => redactChars_blank h l) (fun _ _ => redactChars_word)
    (fun _ => redactToken_blank) t

theorem splitInclusive_append (hc : isWhitespace c = true) (p l : List Char) :
    splitInclusive (p ++ c :: l) = splitInclusive (p ++ [c]) ++ splitInclusive l := by
  induction p with
  | nil => rw [List.nil_append, List.nil_append, splitInclusive_blank hc, splitInclusive_blank hc]; rfl
  | cons d p ih =>
      rw [List.cons_append, List.cons_append, splitInclusive, splitInclusive, ih]
      split
      · rfl
      · cases h : splitInclusive (p ++ [c]) with
        | nil =>
            cases p with
            | nil =>
                rw [List.nil_append, splitInclusive_blank hc] at h
                cases h
            | cons e p =>
                rw [List.cons_append, splitInclusive] at h
                split at h
                · cases h
                · split at h <;> cases h
        | cons part parts => rfl

/-- What follows a blank is rewritten on its own. -/
theorem redactChars_append (hc : isWhitespace c = true) (p l : List Char) :
    redactChars (p ++ c :: l) = redactChars (p ++ [c]) ++ redactChars l := by
  rw [redactChars, splitInclusive_append hc, List.flatMap_append]
  rfl

theorem redactChars_blanks (hp : ∀ c ∈ p, isWhitespace c = true) (l : List Char) :
    redactChars (p ++ l) = p ++ redactChars l := by
  induction p with
  | nil => rfl
  | cons c p ih =>
      obtain ⟨hc, hlater⟩ := List.forall_mem_cons.mp hp
      rw [List.cons_append, redactChars_blank hc, ih hlater]
      rfl

/-- The first character is the text's own or the beginning of the mark. -/
theorem head?_redactChars (hc : isWhitespace c = false) (l : List Char) :
    (redactChars (c :: l)).head? = some c ∨ (redactChars (c :: l)).head? = some '[' := by
  have hword : ∀ d ∈ c :: l.takeWhile (fun d => !isWhitespace d), isWhitespace d = false := by
    intro d hd
    rcases List.mem_cons.mp hd with rfl | hin
    · exact hc
    · simpa using List.mem_takeWhile_imp hin
  have hend : ∀ d ∈ (l.dropWhile fun d => !isWhitespace d).head?, isWhitespace d = true := by
    intro d hd
    have hstop := List.head?_dropWhile_not (fun d => !isWhitespace d) l
    rw [Option.mem_def.mp hd] at hstop
    simpa using hstop
  have hsplit : c :: l =
      c :: l.takeWhile (fun d => !isWhitespace d) ++ l.dropWhile fun d => !isWhitespace d :=
    congrArg (c :: ·) List.takeWhile_append_dropWhile.symm
  rw [hsplit, redactChars_word (List.cons_ne_nil _ _) hword hend, redactToken]
  split
  · exact Or.inr rfl
  · exact Or.inl rfl

theorem getLast?_redactToken (h : c ∈ (redactToken p).getLast?) : c ∈ p.getLast? ∨ c = ']' := by
  rw [redactToken] at h
  split at h
  · exact Or.inr (Option.some.inj h).symm
  · exact Or.inl h

/-- The last character is the text's own or the end of the mark. -/
theorem getLast?_redactChars (h : c ∈ (redactChars l).getLast?) : c ∈ l.getLast? ∨ c = ']' := by
  have htext : (Runs.ofText isWhitespace l).text = l := Runs.text_ofText l
  rw [← htext] at h ⊢
  rw [redactChars_text] at h
  have hne := (Runs.ofText isWhitespace l).ne_nil
  show c ∈ (Runs.ofText isWhitespace l).pieces.flatten.getLast? ∨ c = ']'
  generalize (Runs.ofText isWhitespace l).pieces = ps at h hne ⊢
  induction ps with
  | nil => cases h
  | cons p ps ih =>
      have hne' : ∀ q ∈ ps, q ≠ [] := fun q hq => hne q (List.mem_cons_of_mem p hq)
      rw [List.map_cons, List.flatten_cons, List.getLast?_append] at h
      rw [List.flatten_cons, List.getLast?_append]
      rcases Option.or_eq_some_iff.mp h with hlater | ⟨hnone, hlast⟩
      · rcases ih hlater hne' with hown | hmark
        · left
          rw [hown]
          rfl
        · exact Or.inr hmark
      · cases ps with
        | nil => exact getLast?_redactToken hlast
        | cons q ps =>
            have hq := redactToken_ne_nil (hne' q List.mem_cons_self)
            rw [List.getLast?_eq_none_iff, List.map_cons, List.flatten_cons] at hnone
            exact absurd (List.append_eq_nil_iff.mp hnone).1 hq

/-- A character that stands in no secret-looking token and not in the mark stays as often as it is
there. -/
theorem count_redactChars (hc : ∀ p, looksSecret p = true → c ∉ p) (hmark : c ∉ REDACTED.toList)
    (l : List Char) : (redactChars l).count c = l.count c := by
  have htoken : ∀ p, (redactToken p).count c = p.count c := by
    intro p
    rw [redactToken]
    split
    · next hsecret =>
        rw [List.count_eq_zero_of_not_mem hmark, List.count_eq_zero_of_not_mem (hc p hsecret)]
    · rfl
  have htext : (Runs.ofText isWhitespace l).text = l := Runs.text_ofText l
  nth_rewrite 1 [← htext]
  nth_rewrite 2 [← htext]
  rw [redactChars_text, Runs.text, List.count_flatten, List.count_flatten, List.map_map]
  congr 1
  apply List.map_congr_left
  intro p _
  exact htoken p

/-- The runs of the rewritten text. -/
def redactRuns (t : Runs isWhitespace) : Runs isWhitespace :=
  t.map redactToken fun p hp =>
    ⟨redactToken_ne_nil (t.ne_nil p hp), fun c hc d hd =>
      redactToken_kind p c hc d hd fun e he => t.uniform p hp e he d hd⟩

theorem redactLongTokens_text (t : Runs isWhitespace) :
    redactLongTokens (String.ofList t.text) = String.ofList (redactRuns t).text := by
  rw [redactLongTokens_eq, String.toList_ofList, redactChars_text]
  rfl

theorem redactRuns_redactRuns (t : Runs isWhitespace) : redactRuns (redactRuns t) = redactRuns t := by
  ext1
  show (t.pieces.map redactToken).map redactToken = t.pieces.map redactToken
  rw [List.map_map]
  apply List.map_congr_left
  intro p _
  exact redactToken_of_looksSecret_false (looksSecret_redactToken p)

/-- Every text, by its one division into whitespace and maximal tokens: the division of the
redacted text is the same with the mark in the place of each token that looks like a secret, which
whitespace never does; the redacted text has no such token, and redacting it again changes
nothing. -/
theorem long_tokens_exact (s : String) :
    ∃ t : Runs isWhitespace, (String.ofList t.text = s ∧ ∀ u : Runs isWhitespace,
        String.ofList u.text = s → u = t) ∧
      (∃ r : Runs isWhitespace, redactLongTokens s = String.ofList r.text ∧
        r.pieces = t.pieces.map (fun p => if looksSecret p then "[REDACTED]".toList else p) ∧
        ∀ p ∈ r.pieces, looksSecret p = false) ∧
      (∀ p ∈ t.pieces, (∀ c ∈ p, isWhitespace c = true) → looksSecret p = false) ∧
      (∀ p, looksSecret p = true ↔
        48 ≤ (p.map Char.utf8Size).sum ∧
          (∀ c ∈ p, c.isAlphanum = true ∨ c ∈ ['+', '/', '=', '_', '-', '.']) ∧
          (∃ c ∈ p, c.isDigit = true) ∧ ∃ c ∈ p, c.isAlpha = true) ∧
      redactLongTokens (redactLongTokens s) = redactLongTokens s := by
  have hs : String.ofList (Runs.ofText isWhitespace s.toList).text = s := by
    rw [Runs.text_ofText, String.ofList_toList]
  refine ⟨Runs.ofText isWhitespace s.toList, ⟨hs, ?_⟩, ?_, ?_, looksSecret_iff, ?_⟩
  · intro u hu
    apply Runs.text_injective
    rw [Runs.text_ofText, ← hu, String.toList_ofList]
  · refine ⟨redactRuns (Runs.ofText isWhitespace s.toList), ?_, rfl, ?_⟩
    · rw [← redactLongTokens_text, hs]
    · intro q hq
      obtain ⟨p, _, rfl⟩ := List.mem_map.mp hq
      exact looksSecret_redactToken p
  · intro p hp hblank
    cases h : looksSecret p with
    | false => rfl
    | true =>
        obtain ⟨c, hc⟩ := List.exists_mem_of_ne_nil p (Runs.ne_nil _ p hp)
        have hno := no_blank_of_looksSecret h c hc
        rw [hblank c hc] at hno
        cases hno
  · rw [← hs, redactLongTokens_text, redactLongTokens_text, redactRuns_redactRuns]

end PackageHarness.Redaction
