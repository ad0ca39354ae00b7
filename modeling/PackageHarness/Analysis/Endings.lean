/-
# PackageHarness.Analysis.Endings — what the later patterns leave of the end of a text.

Three of the four patterns behind the first end in a token character, an at sign or a dash, so they
never take a blank or an exclamation mark at the end. The key pattern takes the rest of a line, and
passes into the next line only over the blanks behind a separator.
-/
import PackageHarness.Analysis.Headers

namespace PackageHarness.Redaction

open Text Text.Regex

variable {c d : Char} {s t u : List Char} {prev : Option Char} {found : Found}

/-! ## Patterns that end in a mark -/

/-- Neither a blank nor an exclamation mark. -/
def isEnding (c : Char) : Bool := !isWhitespace c && c != '!'

theorem isEnding_of_isTokenChar (h : isTokenChar c = true) : isEnding c = true := by
  cases hblank : isWhitespace c with
  | false =>
      rw [isEnding, hblank, Bool.not_false, Bool.true_and, bne_iff_ne]
      rintro rfl
      exact absurd h (by decide)
  | true =>
      rw [isTokenChar, fold_of_isWhitespace hblank, Bool.or_eq_true] at h
      rcases h with halnum | hmark
      · rw [not_isWhitespace_of_isAlphanum halnum] at hblank
        cases hblank
      · have hmem : c ∈ ['.', '_', '~', '+', '/', '=', '-'] := List.contains_iff_mem.mp hmark
        simp only [List.mem_cons, List.not_mem_nil, or_false] at hmem
        rcases hmem with rfl | rfl | rfl | rfl | rfl | rfl | rfl <;> cases hblank

theorem bearer_endsIn (isWord : Char → Bool) : EndsIn isEnding (bearerPattern isWord).rest := by
  have htoken : EndsIn isTokenChar (bearerPattern isWord).rest :=
    endsIn_seq (endsIn_seq (endsIn_seq (endsIn_plus isTokenChar) _) _) _
  intro prev s run h
  obtain ⟨x, c, hx, hc⟩ := htoken prev s run h
  exact ⟨x, c, hx, isEnding_of_isTokenChar hc⟩

theorem url_endsIn : EndsIn isEnding urlPattern.rest := by
  have hat : EndsIn (exactly '@') urlPattern.rest :=
    endsIn_seq (endsIn_seq (endsIn_seq (endsIn_one _) _) _) _
  intro prev s run h
  obtain ⟨x, c, hx, hc⟩ := hat prev s run h
  rw [exactly, beq_iff_eq] at hc
  subst hc
  exact ⟨x, '@', hx, rfl⟩

theorem privateKey_endsIn : EndsIn isEnding privateKeyPattern.rest := by
  have hdash : ∀ d, exactly '-' d = true → isEnding d = true := by
    intro d hd
    rw [exactly, beq_iff_eq] at hd
    rw [hd]
    rfl
  have hspell := endsIn_spell "PRIVATE KEY----".toList hdash
  exact endsIn_seq (endsIn_seq (endsIn_seq (endsIn_seq (endsIn_seq (endsIn_seq hspell _) _) _) _) _) _

/-! ## The key pattern -/

theorem keyValue_split (h : keyValuePattern.first prev s = some found) :
    ∃ name sep blanks, found.kept = name ++ sep :: blanks ∧ isSeparator sep = true ∧
      (∀ c ∈ blanks, isWhitespace c = true) ∧ ∀ c ∈ found.dropped, c ≠ '\n' := by
  obtain ⟨left, hleft, right, hright, rfl⟩ := Rewrite.first_sound h
  obtain ⟨start, -, keyed, hkeyed, rfl⟩ := mem_seq.mp hleft
  obtain ⟨key₁, -, worded, hworded, rfl⟩ := mem_seq.mp hkeyed
  obtain ⟨word, -, ended, hended, rfl⟩ := mem_seq.mp hworded
  obtain ⟨key₂, -, spaced, hspaced, rfl⟩ := mem_seq.mp hended
  obtain ⟨blanks₁, -, separated, hseparated, rfl⟩ := mem_seq.mp hspaced
  obtain ⟨separator, hseparator, blanks₂, hblanks₂, rfl⟩ := mem_seq.mp hseparated
  obtain ⟨value, hvalue, finish, hfinish, rfl⟩ := mem_seq.mp hright
  obtain ⟨sep, hsep, -, hkind⟩ := mem_oneRuns.mp hseparator
  refine ⟨start.1 ++ (key₁.1 ++ (word.1 ++ (key₂.1 ++ blanks₁.1))), sep, blanks₂.1, ?_, hkind,
    (mem_manyRuns.mp hblanks₂).2, ?_⟩
  · show start.1 ++ (key₁.1 ++ (word.1 ++ (key₂.1 ++ (blanks₁.1 ++ (separator.1 ++ blanks₂.1))))) = _
    rw [hsep]
    simp
  · have hfinal : finish.1 = [] := by
      rw [runs] at hfinish
      split at hfinish
      · rw [List.mem_singleton.mp hfinish]
      · cases hfinish
    show ∀ c ∈ value.1 ++ finish.1, c ≠ '\n'
    rw [hfinal, List.append_nil]
    intro c hc
    exact bne_iff_ne.mp ((mem_manyRuns.mp hvalue).2 c hc)

/-- Without a separator there is no match. -/
theorem keyValue_first_none (hs : ∀ c ∈ s, isSeparator c = false) (prev : Option Char) :
    keyValuePattern.first prev s = none := by
  cases h : keyValuePattern.first prev s with
  | none => rfl
  | some found =>
      obtain ⟨name, sep, blanks, hkept, hsep, -, -⟩ := keyValue_split h
      have hmem : sep ∈ s := by
        rw [Rewrite.first_split h, hkept]
        simp
      rw [hs sep hmem] at hsep
      cases hsep

theorem keyValue_replaceFrom (hs : ∀ c ∈ s, isSeparator c = false) (prev : Option Char) :
    keyValuePattern.replaceFrom 0 prev s = s := by
  induction s generalizing prev with
  | nil => rfl
  | cons c s ih =>
      rw [Rewrite.replaceFrom_none (keyValue_first_none hs prev),
        ih fun d hd => hs d (List.mem_cons_of_mem c hd)]

/-- A character at which a match of the key pattern does not pass into the next line. -/
def isSolid (c : Char) : Bool := !isWhitespace c && !isSeparator c

/-- The match ends before a line end that follows a solid character, if no separator comes later. -/
theorem keyValue_size_le (ht : ∀ c ∈ t.getLast?, isSolid c = true)
    (hs : ∀ c ∈ s, isSeparator c = false) (h : keyValuePattern.first prev (t ++ '\n' :: s) = some found) :
    found.size ≤ t.length := by
  have hsplit := Rewrite.first_split h
  obtain ⟨name, sep, blanks, hkept, hsep, hblanks, hvalue⟩ := keyValue_split h
  have hlater : ∀ c ∈ '\n' :: s, isSeparator c = false := List.forall_mem_cons.mpr ⟨rfl, hs⟩
  rw [hkept, List.append_assoc, List.append_assoc, List.cons_append] at hsplit
  by_contra hlong
  rw [Found.size, hkept, List.length_append, List.length_cons] at hlong
  rcases List.append_eq_append_iff.mp hsplit with ⟨y, -, hy⟩ | ⟨y, ht', hy⟩
  · have hmem : sep ∈ '\n' :: s := by
      rw [hy]
      simp
    rw [hlater sep hmem] at hsep
    cases hsep
  · cases y with
    | nil =>
        have hmem : sep ∈ '\n' :: s := by
          rw [← List.nil_append ('\n' :: s), ← hy]
          exact List.mem_cons_self
        rw [hlater sep hmem] at hsep
        cases hsep
    | cons e y =>
        obtain ⟨rfl, hrest⟩ := List.cons_eq_cons.mp hy
        rcases List.append_eq_append_iff.mp hrest with ⟨z, hz, hdropped⟩ | ⟨z, hz, -⟩
        · -- The value would take the line end.
          have hbegins : z ++ ['\n'] <+: found.dropped := by
            have hvalueBegins : z ++ ['\n'] <+: found.dropped ++ found.behind := by
              rw [hdropped]
              exact ⟨s, by simp⟩
            apply List.prefix_of_prefix_length_le hvalueBegins
            · exact List.prefix_append _ _
            · rw [ht', hz] at hlong
              simp only [List.length_append, List.length_cons] at hlong ⊢
              simp only [List.length_nil]
              omega
          exact hvalue '\n' (hbegins.subset (by simp)) rfl
        · -- Only blanks stand between the separator and the line end.
          have hall : ∀ c ∈ sep :: y, isSolid c = false := by
            intro c hc
            rw [isSolid]
            rcases List.mem_cons.mp hc with rfl | hmem
            · rw [hsep, Bool.not_true, Bool.and_false]
            · rw [hblanks c (by rw [hz]; exact List.mem_append_left z hmem)]
              rfl
          have hlast := List.getLast_mem (List.cons_ne_nil sep y)
          have hsolid := ht ((sep :: y).getLast (List.cons_ne_nil sep y)) (by
            rw [ht', List.getLast?_append_of_ne_nil _ (List.cons_ne_nil sep y),
              List.getLast?_eq_some_getLast (List.cons_ne_nil sep y)]
            rfl)
          rw [hall _ hlast] at hsolid
          cases hsolid

theorem keyValue_replaceAll (hd : isSolid d = true) (hs : ∀ c ∈ s, isSeparator c = false)
    (u : List Char) : keyValuePattern.replaceAll (u ++ [d] ++ '\n' :: s) =
      keyValuePattern.written 0 none (u ++ [d]) ('\n' :: s) ++ '\n' :: s := by
  have hstop : keyValuePattern.overrun 0 none (u ++ [d]) ('\n' :: s) = 0 := by
    apply Nat.eq_zero_of_le_zero
    apply Rewrite.overrun_le (Nat.zero_le _)
    rintro prev t hne ⟨x, hx⟩ found hfound
    apply keyValue_size_le _ hs hfound
    intro c hc
    have hlast : (x ++ t).getLast? = some d := by rw [hx, List.getLast?_concat]
    rw [List.getLast?_append_of_ne_nil x hne, hc] at hlast
    cases hlast
    exact hd
  have hlater : ∀ c ∈ '\n' :: s, isSeparator c = false := List.forall_mem_cons.mpr ⟨rfl, hs⟩
  rw [Rewrite.replaceAll, Rewrite.replaceFrom_append, hstop, keyValue_replaceFrom hlater]

/-! ## The later patterns together -/

variable (isWord : Char → Bool)

/-- The patterns that read what the first one has made of a text. -/
def LATER_PATTERNS : List Rewrite :=
  [bearerPattern isWord, keyValuePattern, urlPattern, privateKeyPattern]

def applyLater (s : List Char) : List Char :=
  (LATER_PATTERNS isWord).foldl (fun output w => w.replaceAll output) s

theorem applyPatterns_eq (input : String) :
    applyPatterns isWord input =
      String.ofList (applyLater isWord (authorizationPattern.replaceAll input.toList)) := rfl

/-- The replacements end in one of two marks. -/
theorem replacement_ends : ∀ w ∈ LATER_PATTERNS isWord,
    w.replacement ≠ [] ∧ ∀ c ∈ w.replacement.getLast?, c = ']' ∨ c = '@' := by
  intro w hw
  simp only [LATER_PATTERNS, List.mem_cons, List.not_mem_nil, or_false] at hw
  rcases hw with rfl | rfl | rfl | rfl
  · exact ⟨List.cons_ne_nil _ _, fun c hc => Or.inl (Option.some.inj hc).symm⟩
  · exact ⟨List.cons_ne_nil _ _, fun c hc => Or.inl (Option.some.inj hc).symm⟩
  · exact ⟨List.cons_ne_nil _ _, fun c hc => Or.inr (Option.some.inj hc).symm⟩
  · exact ⟨List.cons_ne_nil _ _, fun c hc => Or.inl (Option.some.inj hc).symm⟩

/-- What every pattern keeps, they keep together. -/
theorem applyLater_of {P : List Char → Prop}
    (hstep : ∀ w ∈ LATER_PATTERNS isWord, ∀ x, P x → P (w.replaceAll x)) (h : P s) :
    P (applyLater isWord s) := by
  rw [applyLater]
  generalize LATER_PATTERNS isWord = ws at hstep ⊢
  induction ws generalizing s with
  | nil => exact h
  | cons w ws ih =>
      apply ih (hstep w List.mem_cons_self s h)
      exact fun w' hw' => hstep w' (List.mem_cons_of_mem w hw')

/-- The last character is the text's own or the end of a replacement. -/
theorem getLast?_applyLater : ∀ c ∈ (applyLater isWord s).getLast?,
    c ∈ s.getLast? ∨ c = ']' ∨ c = '@' := by
  apply applyLater_of (P := fun x => ∀ c ∈ x.getLast?, c ∈ s.getLast? ∨ c = ']' ∨ c = '@') isWord
  · intro w hw x hx c hc
    obtain ⟨hne, hends⟩ := replacement_ends isWord w hw
    rcases Rewrite.getLast?_replaceAll hne hc with hown | hmark
    · exact hx c hown
    · exact Or.inr (hends c hmark)
  · exact fun c hc => Or.inl hc

/-- A text that ends in an exclamation mark on a line of its own, behind a solid character. -/
def Tailed (s : List Char) : Prop := ∃ u d, s = u ++ [d] ++ ['\n', '!'] ∧ isSolid d = true

theorem tailed_of_written {w : Rewrite} (hw : w ∈ LATER_PATTERNS isWord) (u : List Char)
    (hd : isSolid d = true) : Tailed (w.written 0 none (u ++ [d]) ['\n', '!'] ++ ['\n', '!']) := by
  obtain ⟨hne, hends⟩ := replacement_ends isWord w hw
  have hwritten : w.written 0 none (u ++ [d]) ['\n', '!'] ≠ [] :=
    Rewrite.written_ne_nil hne (by simp)
  obtain ⟨x, e, hx⟩ := List.eq_nil_or_concat _ |>.resolve_left hwritten
  refine ⟨x, e, by rw [hx, List.concat_eq_append], ?_⟩
  have hlast : e ∈ (w.written 0 none (u ++ [d]) ['\n', '!']).getLast? := by
    rw [hx, List.concat_eq_append, List.getLast?_concat]
    rfl
  rcases Rewrite.getLast?_written hne hlast with hown | hmark
  · rw [List.getLast?_concat] at hown
    cases hown
    exact hd
  · rcases hends e hmark with rfl | rfl <;> rfl

theorem tailed_replaceAll {w : Rewrite} (hw : w ∈ LATER_PATTERNS isWord) (h : Tailed s) :
    Tailed (w.replaceAll s) := by
  obtain ⟨u, d, rfl, hd⟩ := h
  have htail : ∀ c ∈ ['\n', '!'], isEnding c = false := by
    intro c hc
    simp only [List.mem_cons, List.not_mem_nil, or_false] at hc
    rcases hc with rfl | rfl <;> rfl
  have hkeep : w.replaceAll (u ++ [d] ++ ['\n', '!']) =
      w.written 0 none (u ++ [d]) ['\n', '!'] ++ ['\n', '!'] := by
    simp only [LATER_PATTERNS, List.mem_cons, List.not_mem_nil, or_false] at hw
    rcases hw with rfl | rfl | rfl | rfl
    · exact Rewrite.replaceAll_of_endsIn (bearer_endsIn isWord) htail _
    · apply keyValue_replaceAll hd
      intro c hc
      rw [List.mem_singleton.mp hc]
      rfl
    · exact Rewrite.replaceAll_of_endsIn url_endsIn htail _
    · exact Rewrite.replaceAll_of_endsIn privateKey_endsIn htail _
  rw [hkeep]
  exact tailed_of_written isWord hw u hd

theorem tailed_applyLater (h : Tailed s) : Tailed (applyLater isWord s) :=
  applyLater_of isWord (fun _ hw _ hx => tailed_replaceAll isWord hw hx) h

end PackageHarness.Redaction
