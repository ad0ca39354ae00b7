/-
# PackageHarness.Analysis.Coverage — the key pattern, line by line.

The key pattern is tied to the start of a line. A text before a separator names a key if a key word
stands in it and only blanks stand behind its first line end; then the match takes the blanks behind
the separator and the rest of that line, and otherwise the next line is read. Two texts that are alike
up to replacements and marks are read in the same way, so a match takes their end in both or in none.
-/
import PackageHarness.Analysis.Masking

namespace PackageHarness.Redaction

open Text Text.Regex

variable {c d : Char} {a b e l name name' r r' s t u v w x y z : List Char} {prev prev' : Option Char}
  {sep : Char} {p : Char → Bool}

/-! ## Which texts name a key -/

/-- `TOKEN|SECRET|PASSWORD|PRIVATE_KEY|API_KEY`, in lower case. -/
def KEY_WORDS : List (List Char) :=
  ["token".toList, "secret".toList, "password".toList, "private_key".toList, "api_key".toList]

theorem keyWord_runs (prev : Option Char) (s : List Char) :
    keyWord.runs prev s = KEY_WORDS.flatMap fun word => (spell sameLetter word).runs prev s := by
  simp only [KEY_WORDS, List.flatMap_cons, List.flatMap_nil, List.append_nil]
  rfl

theorem no_blank_key_word (hx : x ∈ KEY_WORDS) : ∀ c ∈ x, isWhitespace c = false := by
  have hall : KEY_WORDS.all (fun w => w.all fun c => !isWhitespace c) = true := rfl
  intro c hc
  simpa using List.all_eq_true.mp (List.all_eq_true.mp hall x hx) c hc

theorem ne_nil_of_key_word (hx : x ∈ KEY_WORDS) (h : Spells sameLetter x s) : s ≠ [] := by
  rintro rfl
  cases h
  exact absurd hx (by decide)

/-- A text names a key if a key word stands between other characters, with blanks at the end. -/
theorem isKeyed_iff {name : List Char} : isKeyed name = true ↔
    ∃ a word b blanks, name = a ++ (word ++ (b ++ blanks)) ∧ (∀ c ∈ a, isKeyChar c = true) ∧
      (∃ x ∈ KEY_WORDS, Spells sameLetter x word) ∧ (∀ c ∈ b, isKeyChar c = true) ∧
      ∀ c ∈ blanks, isWhitespace c = true := by
  rw [isKeyed, List.any_eq_true]
  constructor
  · rintro ⟨run, hrun, hwhole⟩
    obtain ⟨left, hleft, right, hright, rfl⟩ := mem_seq.mp hrun
    obtain ⟨worded, hworded, later, hlater, rfl⟩ := mem_seq.mp hright
    obtain ⟨tail, htail, last, hlast, rfl⟩ := mem_seq.mp hlater
    rw [keyWord_runs] at hworded
    obtain ⟨x, hx, hword⟩ := List.mem_flatMap.mp hworded
    have hsplit := append_of_mem_runs hrun
    rw [List.isEmpty_iff.mp hwhole, List.append_nil] at hsplit
    exact ⟨left.1, worded.1, tail.1, last.1, hsplit, (mem_manyRuns.mp hleft).2,
      ⟨x, hx, (mem_runs_spell hword).2⟩, (mem_manyRuns.mp htail).2, (mem_manyRuns.mp hlast).2⟩
  · rintro ⟨a, word, b, blanks, rfl, ha, ⟨x, hx, hword⟩, hb, hblanks⟩
    have hworded : ∀ prev, (word, b ++ blanks) ∈ keyWord.runs prev (word ++ (b ++ blanks)) := by
      intro prev
      rw [keyWord_runs, List.mem_flatMap]
      refine ⟨x, hx, ?_⟩
      rw [runs_spell_append hword]
      exact List.mem_cons_self
    refine ⟨(a ++ (word ++ (b ++ blanks)), []), ?_, rfl⟩
    apply mem_seq.mpr
    refine ⟨(a, word ++ (b ++ blanks)), mem_manyRuns.mpr ⟨rfl, ha⟩, (word ++ (b ++ blanks), []), ?_,
      rfl⟩
    apply mem_seq.mpr
    refine ⟨(word, b ++ blanks), hworded _, (b ++ blanks, []), ?_, rfl⟩
    apply mem_seq.mpr
    refine ⟨(b, blanks), mem_manyRuns.mpr ⟨rfl, hb⟩, (blanks, []), mem_manyRuns.mpr ⟨?_, hblanks⟩, rfl⟩
    exact (List.append_nil blanks).symm

/-- Whether a key word stands in a text. -/
def hasKeyWord : List Char → Bool
  | [] => false
  | c :: s => KEY_WORDS.any (fun w => spelled sameLetter w (c :: s)) || hasKeyWord s

theorem hasKeyWord_iff : hasKeyWord s = true ↔
    ∃ a word b, s = a ++ (word ++ b) ∧ ∃ x ∈ KEY_WORDS, Spells sameLetter x word := by
  induction s with
  | nil =>
      refine iff_of_false Bool.false_ne_true ?_
      rintro ⟨a, word, b, hs, x, hx, hword⟩
      have hnil : word = [] := (List.append_eq_nil_iff.mp (List.append_eq_nil_iff.mp hs.symm).2).1
      exact ne_nil_of_key_word hx hword hnil
  | cons c s ih =>
      rw [hasKeyWord, Bool.or_eq_true, ih, List.any_eq_true]
      constructor
      · rintro (⟨x, hx, hspelled⟩ | ⟨a, word, b, rfl, hword⟩)
        · obtain ⟨word, b, hs, hword⟩ := spelled_iff.mp hspelled
          exact ⟨[], word, b, hs, x, hx, hword⟩
        · exact ⟨c :: a, word, b, rfl, hword⟩
      · rintro ⟨a, word, b, hs, x, hx, hword⟩
        cases a with
        | nil => exact Or.inl ⟨x, hx, spelled_iff.mpr ⟨word, b, hs, hword⟩⟩
        | cons d a => exact Or.inr ⟨a, word, b, (List.cons_eq_cons.mp hs).2, x, hx, hword⟩

/-- Whether only blanks stand behind the characters that may stand before a separator. -/
def endsBlank (s : List Char) : Bool := (s.dropWhile isKeyChar).all isWhitespace

theorem isKeyChar_of_spells (hx : x ∈ KEY_WORDS) (h : Spells sameLetter x s) :
    ∀ c ∈ s, isKeyChar c = true := by
  have hletters : KEY_WORDS.all (fun w => w.all isKeyChar) = true := rfl
  intro c hc
  cases hchar : isKeyChar c with
  | true => rfl
  | false =>
      have hfold : fold c = c := by
        rw [isKeyChar, Bool.not_eq_false', Bool.or_eq_true, Bool.or_eq_true, Bool.or_eq_true,
          beq_iff_eq,
          beq_iff_eq, beq_iff_eq, beq_iff_eq] at hchar
        rcases hchar with ((rfl | rfl) | rfl) | rfl <;> rfl
      have hmem : c ∈ x := by
        rw [← spells_iff.mp h, ← hfold]
        exact List.mem_map_of_mem hc
      have hletter := List.all_eq_true.mp (List.all_eq_true.mp hletters x hx) c hmem
      rw [hchar] at hletter
      cases hletter

theorem isKeyed_eq (name : List Char) : isKeyed name = (hasKeyWord name && endsBlank name) := by
  rw [Bool.eq_iff_iff, Bool.and_eq_true, isKeyed_iff, hasKeyWord_iff]
  constructor
  · rintro ⟨a, word, b, blanks, rfl, ha, ⟨x, hx, hword⟩, hb, hblanks⟩
    refine ⟨⟨a, word, b ++ blanks, rfl, x, hx, hword⟩, ?_⟩
    have hkey : ∀ c ∈ a ++ (word ++ b), isKeyChar c = true := by
      simp only [List.forall_mem_append]
      exact ⟨ha, isKeyChar_of_spells hx hword, hb⟩
    have hassoc : a ++ (word ++ (b ++ blanks)) = a ++ (word ++ b) ++ blanks := by simp
    rw [endsBlank, hassoc, List.dropWhile_append_of_pos hkey, List.all_eq_true]
    exact fun c hc => hblanks c ((List.dropWhile_suffix _).subset hc)
  · rintro ⟨⟨a, word, b, hname, x, hx, hword⟩, hends⟩
    have hsplit := List.takeWhile_append_dropWhile (p := isKeyChar) (l := name)
    have hblank : ∀ c ∈ name.dropWhile isKeyChar, isWhitespace c = true := List.all_eq_true.mp hends
    have hkey : ∀ c ∈ name.takeWhile isKeyChar, isKeyChar c = true :=
      fun c hc => List.mem_takeWhile_imp hc
    have hno := no_blank_of_spells (no_blank_key_word hx) hword
    nth_rewrite 3 [hname] at hsplit
    rw [← List.append_assoc] at hsplit
    obtain ⟨y, hy, hrest⟩ : ∃ y, name.takeWhile isKeyChar = a ++ word ++ y ∧
        b = y ++ name.dropWhile isKeyChar := by
      rcases List.append_eq_append_iff.mp hsplit with ⟨y, hy, hrest⟩ | ⟨y, hy, hrest⟩
      · -- The key word would end in a blank.
        have hyblank : ∀ c ∈ y, isWhitespace c = true := fun c hc => hblank c (by rw [hrest]; simp [hc])
        have hynil : y = [] := by
          rcases List.suffix_or_suffix_of_suffix ⟨_, hy.symm⟩ (List.suffix_append a word) with hin | hin
          · apply List.eq_nil_iff_forall_not_mem.mpr
            intro c hc
            have hnot := hno c (hin.subset hc)
            rw [hyblank c hc] at hnot
            cases hnot
          · obtain ⟨c, hc⟩ := List.exists_mem_of_ne_nil word (ne_nil_of_key_word hx hword)
            have hnot := hno c hc
            rw [hyblank c (hin.subset hc)] at hnot
            cases hnot
        rw [hynil, List.append_nil] at hy
        rw [hynil, List.nil_append] at hrest
        exact ⟨[], by rw [List.append_nil, hy], by rw [List.nil_append, hrest]⟩
      · exact ⟨y, hy, hrest⟩
    rw [hy] at hkey
    refine ⟨a, word, y, name.dropWhile isKeyChar, hname.trans (by rw [← hrest]), ?_,
      ⟨x, hx, hword⟩, ?_, hblank⟩
    · exact fun c hc => hkey c (by simp [hc])
    · exact fun c hc => hkey c (by simp [hc])

/-! ## Texts that are alike -/

theorem IsReplacement.all (h : IsReplacement r) (hp : "Bearer [REDACTED]".toList.all p = true) :
    ∀ c ∈ r, p c = true := by
  have hbearer : ∀ c ∈ "Bearer [REDACTED]".toList, p c = true := fun c hc => List.all_eq_true.mp hp c hc
  rcases h with rfl | rfl
  · have hpart : "Bearer [REDACTED]".toList = "Bearer ".toList ++ REDACTED.toList := rfl
    rw [hpart] at hbearer
    exact fun c hc => hbearer c (List.mem_append_right _ hc)
  · exact hbearer

theorem IsReplacement.head (h : IsReplacement r) : ∃ c x, r = c :: x ∧ (c = '[' ∨ c = 'B') := by
  rcases h with rfl | rfl
  · exact ⟨'[', _, rfl, Or.inl rfl⟩
  · exact ⟨'B', _, rfl, Or.inr rfl⟩

/-- No letter of a key word begins a replacement or a mark. -/
def Apart (w : List Char) : Prop :=
  ∀ c ∈ w, sameLetter c '[' = false ∧ sameLetter c 'B' = false ∧ sameLetter c '*' = false

theorem apart_key_word (hx : x ∈ KEY_WORDS) : Apart x := by
  have hall : KEY_WORDS.all (fun w => w.all fun c =>
      !sameLetter c '[' && (!sameLetter c 'B' && !sameLetter c '*')) = true := by decide
  intro c hc
  simpa using List.all_eq_true.mp (List.all_eq_true.mp hall x hx) c hc

theorem Alike.spelled_eq (h : Alike x y) (hw : Apart w) :
    spelled sameLetter w x = spelled sameLetter w y := by
  induction h generalizing w with
  | nil => rfl
  | cons c _ ih =>
      cases w with
      | nil => rfl
      | cons l w =>
          rw [spelled, spelled, ih fun d hd => hw d (List.mem_cons_of_mem l hd)]
  | block n hr _ _ =>
      cases w with
      | nil => rfl
      | cons l w =>
          obtain ⟨hopen, hb, hmark⟩ := hw l List.mem_cons_self
          obtain ⟨c, z, rfl, hc⟩ := hr.head
          have hfirst : sameLetter l c = false := by
            rcases hc with rfl | rfl
            · exact hopen
            · exact hb
          rw [List.cons_append, List.replicate_succ, List.cons_append, spelled, spelled,
            hfirst, hmark]
          rfl

theorem hasKeyWord_mark (n : Nat) (x : List Char) :
    hasKeyWord (List.replicate n '*' ++ x) = hasKeyWord x := by
  induction n with
  | zero => rfl
  | succ n ih => exact ih

theorem IsReplacement.hasKeyWord_eq (h : IsReplacement r) (x : List Char) :
    hasKeyWord (r ++ x) = hasKeyWord x := by
  rcases h with rfl | rfl <;> rfl

theorem Alike.hasKeyWord_eq (h : Alike x y) : hasKeyWord x = hasKeyWord y := by
  induction h with
  | nil => rfl
  | @cons c x y hlater ih =>
      have hwords : KEY_WORDS.any (fun w => spelled sameLetter w (c :: x)) =
          KEY_WORDS.any (fun w => spelled sameLetter w (c :: y)) := by
        rw [Bool.eq_iff_iff, List.any_eq_true, List.any_eq_true]
        constructor
        · rintro ⟨w, hw, hspelled⟩
          exact ⟨w, hw, (hlater.cons c).spelled_eq (apart_key_word hw) ▸ hspelled⟩
        · rintro ⟨w, hw, hspelled⟩
          exact ⟨w, hw, (hlater.cons c).spelled_eq (apart_key_word hw) ▸ hspelled⟩
      rw [hasKeyWord, hasKeyWord, hwords, ih]
  | block n hr _ ih => rw [hr.hasKeyWord_eq, hasKeyWord_mark, ih]

/-- A class that has every replacement and the mark leaves them behind. -/
theorem Alike.dropWhile_all (h : Alike x y) (hp : "Bearer [REDACTED]".toList.all p = true)
    (hmark : p '*' = true) : Alike (x.dropWhile p) (y.dropWhile p) := by
  induction h with
  | nil => exact Alike.nil
  | cons c hlater ih =>
      rw [List.dropWhile_cons, List.dropWhile_cons]
      split
      · exact ih
      · exact hlater.cons c
  | block n hr _ ih =>
      have hmarks : ∀ c ∈ List.replicate (n + 1) '*', p c = true := fun c hc => by
        rw [List.eq_of_mem_replicate hc]
        exact hmark
      rw [List.dropWhile_append_of_pos (hr.all hp), List.dropWhile_append_of_pos hmarks]
      exact ih

/-- No replacement and no mark is skipped with the blanks. -/
theorem Alike.dropWhile_blank (h : Alike x y) :
    Alike (x.dropWhile isWhitespace) (y.dropWhile isWhitespace) := by
  induction h with
  | nil => exact Alike.nil
  | cons c hlater ih =>
      rw [List.dropWhile_cons, List.dropWhile_cons]
      split
      · exact ih
      · exact hlater.cons c
  | block n hr hlater _ =>
      have hboth := Alike.block n hr hlater
      obtain ⟨c, z, rfl, hc⟩ := hr.head
      have hfirst : isWhitespace c = false := by
        rcases hc with rfl | rfl <;> rfl
      rw [List.cons_append, List.dropWhile_cons_of_neg (by simp [hfirst])]
      exact hboth

theorem Alike.all_blank (h : Alike x y) : x.all isWhitespace = y.all isWhitespace := by
  induction h with
  | nil => rfl
  | cons c _ ih => rw [List.all_cons, List.all_cons, ih]
  | block n hr _ _ =>
      obtain ⟨c, z, rfl, hc⟩ := hr.head
      rcases hc with rfl | rfl <;> rfl

theorem Alike.isKeyed_eq (h : Alike x y) : isKeyed x = isKeyed y := by
  rw [Redaction.isKeyed_eq, Redaction.isKeyed_eq, h.hasKeyWord_eq, endsBlank, endsBlank,
    (h.dropWhile_all (p := isKeyChar) (by decide) (by decide)).all_blank]

/-- The first character of a class that has no replacement and no mark. -/
theorem Alike.cut (h : Alike x y) (hp : "Bearer [REDACTED]".toList.all (fun c => !p c) = true)
    (hmark : p '*' = false) :
    ((∀ c ∈ x, p c = false) ∧ ∀ c ∈ y, p c = false) ∨
      ∃ a c r a' r', x = a ++ c :: r ∧ y = a' ++ c :: r' ∧ p c = true ∧ (∀ d ∈ a, p d = false) ∧
        (∀ d ∈ a', p d = false) ∧ Alike a a' ∧ Alike r r' := by
  induction h with
  | nil => exact Or.inl ⟨fun _ hc => absurd hc List.not_mem_nil, fun _ hc => absurd hc List.not_mem_nil⟩
  | @cons c x y hlater ih =>
      cases hc : p c with
      | true =>
          right
          exact ⟨[], c, x, [], y, rfl, rfl, hc, fun _ hd => absurd hd List.not_mem_nil,
            fun _ hd => absurd hd List.not_mem_nil, Alike.nil, hlater⟩
      | false =>
          rcases ih with ⟨hx, hy⟩ | ⟨a, e, r, a', r', rfl, rfl, he, ha, ha', hhead, htail⟩
          · exact Or.inl ⟨List.forall_mem_cons.mpr ⟨hc, hx⟩, List.forall_mem_cons.mpr ⟨hc, hy⟩⟩
          · right
            exact ⟨c :: a, e, r, c :: a', r', rfl, rfl, he, List.forall_mem_cons.mpr ⟨hc, ha⟩,
              List.forall_mem_cons.mpr ⟨hc, ha'⟩, hhead.cons c, htail⟩
  | @block z n x y hz _ ih =>
      have hown : ∀ c ∈ z, p c = false := fun c hc => by simpa using hz.all hp c hc
      have hmarks : ∀ c ∈ List.replicate (n + 1) '*', p c = false := fun c hc => by
        rw [List.eq_of_mem_replicate hc]
        exact hmark
      rcases ih with ⟨hx, hy⟩ | ⟨a, e, r, a', r', rfl, rfl, he, ha, ha', hhead, htail⟩
      · exact Or.inl ⟨List.forall_mem_append.mpr ⟨hown, hx⟩, List.forall_mem_append.mpr ⟨hmarks, hy⟩⟩
      · right
        exact ⟨z ++ a, e, r, List.replicate (n + 1) '*' ++ a', r', by simp, by simp, he,
          List.forall_mem_append.mpr ⟨hown, ha⟩, List.forall_mem_append.mpr ⟨hmarks, ha'⟩,
          Alike.block n hz hhead, htail⟩

/-- Both are in one line, or both go on behind their first one. -/
theorem Alike.cut_line (h : Alike x y) :
    ((∀ c ∈ x, c ≠ '\n') ∧ ∀ c ∈ y, c ≠ '\n') ∨
      ∃ l x' l' y', x = l ++ '\n' :: x' ∧ y = l' ++ '\n' :: y' ∧ (∀ c ∈ l, c ≠ '\n') ∧
        (∀ c ∈ l', c ≠ '\n') ∧ Alike x' y' := by
  have hline : ∀ {l : List Char}, (∀ c ∈ l, (c == '\n') = false) → ∀ c ∈ l, c ≠ '\n' :=
    fun hl c hc => beq_eq_false_iff_ne.mp (hl c hc)
  rcases h.cut (p := fun c => c == '\n') (by decide) (by decide) with
    ⟨hx, hy⟩ | ⟨l, c, x', l', y', hx, hy, hc, hl, hl', -, hlater⟩
  · exact Or.inl ⟨hline hx, hline hy⟩
  · rw [beq_iff_eq] at hc
    subst hc
    exact Or.inr ⟨l, x', l', y', hx, hy, hline hl, hline hl', hlater⟩

/-- A replacement at the end opens behind blanks, and is in one line without separators. -/
theorem dropWhile_replacement (hr : r = [] ∨ IsReplacement r) (q : List Char) :
    (q ++ r).dropWhile isWhitespace = q.dropWhile isWhitespace ++ r := by
  rcases hr with rfl | hr
  · rw [List.append_nil, List.append_nil]
  · obtain ⟨c, z, rfl, hc⟩ := hr.head
    refine dropWhile_opens q ⟨c, z, rfl, ?_⟩
    rcases hc with rfl | rfl <;> rfl

theorem line_of_replacement (hr : r = [] ∨ IsReplacement r) :
    ∀ c ∈ r, isSeparator c = false ∧ c ≠ '\n' := by
  rcases hr with rfl | hr
  · exact fun c hc => absurd hc List.not_mem_nil
  · intro c hc
    have hchar := hr.all (p := fun c => !isSeparator c && c != '\n') (by decide) c hc
    simpa using hchar

/-! ## One line after the other -/

theorem keyValue_not_start (hprev : lineStart prev none = false) (s : List Char) :
    keyValuePattern.first prev s = none := by
  rcases separator_split s with hnone | ⟨name, sep, r, rfl, hname, hsep⟩
  · exact keyValue_first_none hnone prev
  · rw [keyValue_first hname hsep, hprev]
    exact if_neg fun h => Bool.false_ne_true h.1

theorem not_start (hc : c ≠ '\n') : lineStart (some c) none = false := by
  rw [lineStart, Bool.or_eq_false_iff]
  exact ⟨rfl, beq_eq_false_iff_ne.mpr fun heq => hc (Option.some.inj heq)⟩

/-- No match begins at a line end. -/
theorem keyValue_newline (prev : Option Char) (s : List Char) :
    keyValuePattern.first prev ('\n' :: s) = none := by
  rcases separator_split ('\n' :: s) with hnone | ⟨name, sep, r, hs, hname, hsep⟩
  · exact keyValue_first_none hnone prev
  · rw [hs, keyValue_first hname hsep, if_neg]
    rintro ⟨-, hkey⟩
    cases name with
    | nil =>
        rw [← (List.cons_eq_cons.mp hs).1] at hsep
        cases hsep
    | cons c name =>
        rw [← (List.cons_eq_cons.mp hs).1, isKeyed_eq, Bool.and_eq_true, hasKeyWord_iff] at hkey
        obtain ⟨⟨a, word, b, hsplit, x, hx, hword⟩, hblank⟩ := hkey
        obtain ⟨d, hd⟩ := List.exists_mem_of_ne_nil word (ne_nil_of_key_word hx hword)
        have hall : ∀ d ∈ '\n' :: name, isWhitespace d = true := List.all_eq_true.mp hblank
        have hnot := no_blank_of_spells (no_blank_key_word hx) hword d hd
        rw [hall d (by rw [hsplit]; simp [hd])] at hnot
        cases hnot

/-- Within a line the key pattern begins no match. -/
theorem overrun_line (hprev : lineStart prev none = false) (hu : ∀ c ∈ u, c ≠ '\n') (s : List Char) :
    keyValuePattern.overrun 0 prev u s = 0 := by
  induction u generalizing prev with
  | nil => rfl
  | cons c u ih =>
      obtain ⟨hc, hlater⟩ := List.forall_mem_cons.mp hu
      rw [Rewrite.overrun, keyValue_not_start hprev]
      exact ih (not_start hc) hlater

theorem overrun_newline (prev : Option Char) (x s : List Char) :
    keyValuePattern.overrun 0 prev ('\n' :: x) s = keyValuePattern.overrun 0 (some '\n') x s := by
  rw [Rewrite.overrun, List.cons_append, keyValue_newline]

/-- A line at whose start no match begins is passed over. -/
theorem overrun_next (hl : ∀ c ∈ l, c ≠ '\n')
    (hfirst : keyValuePattern.first prev (l ++ '\n' :: x ++ s) = none) :
    keyValuePattern.overrun 0 prev (l ++ '\n' :: x) s = keyValuePattern.overrun 0 (some '\n') x s := by
  cases l with
  | nil => exact overrun_newline prev x s
  | cons c l =>
      obtain ⟨hc, hlater⟩ := List.forall_mem_cons.mp hl
      rw [List.cons_append] at hfirst
      rw [List.cons_append, Rewrite.overrun, hfirst]
      show keyValuePattern.overrun 0 (some c) (l ++ '\n' :: x) s = _
      rw [Rewrite.overrun_append, overrun_line (not_start hc) hlater, overrun_newline]

theorem overrun_last (hl : ∀ c ∈ l, c ≠ '\n') (hfirst : keyValuePattern.first prev (l ++ s) = none) :
    keyValuePattern.overrun 0 prev l s = 0 := by
  cases l with
  | nil => rfl
  | cons c l =>
      obtain ⟨hc, hlater⟩ := List.forall_mem_cons.mp hl
      rw [Rewrite.overrun, hfirst]
      exact overrun_line (not_start hc) hlater s

/-- Without a separator no match begins at all. -/
theorem overrun_no_separator (hu : ∀ c ∈ u, isSeparator c = false)
    (hs : ∀ c ∈ s, isSeparator c = false) :
    keyValuePattern.overrun 0 prev u s = 0 := by
  induction u generalizing prev with
  | nil => rfl
  | cons c u ih =>
      have hboth : ∀ d ∈ c :: u ++ s, isSeparator d = false := List.forall_mem_append.mpr ⟨hu, hs⟩
      rw [Rewrite.overrun, keyValue_first_none hboth]
      exact ih fun d hd => hu d (List.mem_cons_of_mem c hd)

section Keyed

variable (hname : ∀ c ∈ name, isSeparator c = false) (hsep : isSeparator sep = true)
  (hkey : lineStart prev none = true ∧ isKeyed name = true) (hd : isWhitespace d = false)

include hname hsep hkey hd

/-- A line that names a key is taken to its end. -/
theorem overrun_keyed_last (hr : ∀ c ∈ r.dropWhile isWhitespace, c ≠ '\n') :
    keyValuePattern.overrun 0 prev (name ++ sep :: r) [d] ≠ 0 := by
  have hopens : Opens [d] := ⟨d, [], rfl, hd⟩
  have hfirst : keyValuePattern.first prev (name ++ sep :: r ++ [d]) =
      some (keyValueAt name sep (r ++ [d])) := by
    rw [List.append_assoc, List.cons_append, keyValue_first hname hsep, if_pos hkey]
  have hline : ∀ c ∈ r.dropWhile isWhitespace ++ [d], notNewline c = true := by
    intro c hc
    apply bne_iff_ne.mpr
    rcases List.mem_append.mp hc with hin | hin
    · exact hr c hin
    · rintro rfl
      rw [← List.mem_singleton.mp hin] at hd
      cases hd
  have hdropped : (keyValueAt name sep (r ++ [d])).dropped = r.dropWhile isWhitespace ++ [d] := by
    rw [keyValueAt, dropWhile_opens r hopens]
    exact List.takeWhile_eq_self_iff.mpr hline
  have hkept : (keyValueAt name sep (r ++ [d])).kept = name ++ sep :: r.takeWhile isWhitespace := by
    rw [keyValueAt, takeWhile_opens r hopens]
  have hparts := congrArg List.length (List.takeWhile_append_dropWhile (p := isWhitespace) (l := r))
  have hsize : (keyValueAt name sep (r ++ [d])).size = (name ++ sep :: r).length + 1 := by
    rw [Found.size, hdropped, hkept]
    simp only [List.length_append, List.length_cons, List.length_nil] at hparts ⊢
    omega
  rw [Rewrite.overrun_through hfirst (by simp) (by omega), hsize]
  omega

/-- Behind the line end the search goes on. -/
theorem overrun_keyed_next (hr : r.dropWhile isWhitespace = l ++ '\n' :: x) (hl : ∀ c ∈ l, c ≠ '\n') :
    keyValuePattern.overrun 0 prev (name ++ sep :: r) [d] =
      keyValuePattern.overrun 0 (some '\n') x [d] := by
  have hopens : Opens [d] := ⟨d, [], rfl, hd⟩
  have hfirst : keyValuePattern.first prev (name ++ sep :: (r ++ [d])) =
      some (keyValueAt name sep (r ++ [d])) := by
    rw [keyValue_first hname hsep, if_pos hkey]
  have hline : ∀ c ∈ l, notNewline c = true := fun c hc => bne_iff_ne.mpr (hl c hc)
  have hstop : ∀ c ∈ ('\n' :: (x ++ [d])).head?, notNewline c = false := by
    intro c hc
    cases hc
    rfl
  have hdropped : (keyValueAt name sep (r ++ [d])).dropped = l := by
    rw [keyValueAt, dropWhile_opens r hopens, hr, List.append_assoc, List.cons_append]
    exact takeWhile_stop hline hstop
  have hkept : (keyValueAt name sep (r ++ [d])).kept = name ++ sep :: r.takeWhile isWhitespace := by
    rw [keyValueAt, takeWhile_opens r hopens]
  have hwhole : name ++ sep :: r = (name ++ sep :: r.takeWhile isWhitespace ++ l) ++ '\n' :: x := by
    nth_rewrite 1 [← List.takeWhile_append_dropWhile (p := isWhitespace) (l := r), hr]
    simp
  have hsize : (name ++ sep :: r.takeWhile isWhitespace ++ l).length =
      (keyValueAt name sep (r ++ [d])).size := by
    rw [Found.size, hdropped, hkept, List.length_append]
  have hread : name ++ sep :: (r ++ [d]) =
      name ++ sep :: r.takeWhile isWhitespace ++ l ++ '\n' :: x ++ [d] := by
    rw [← hwhole]
    simp
  rw [hread] at hfirst
  rw [hwhole, Rewrite.overrun_found hfirst hsize, overrun_newline]

end Keyed

/-- A match takes the end of the one text if and only if it takes the end of the other. -/
theorem Alike.overrun_iff (h : Alike x y) (hr : r = [] ∨ IsReplacement r)
    (hd : isWhitespace d = false ∧ isSeparator d = false) (hprev : lineStart prev none = true)
    (hprev' : lineStart prev' none = true) :
    keyValuePattern.overrun 0 prev (x ++ r) [d] = 0 ↔ keyValuePattern.overrun 0 prev' y [d] = 0 := by
  have hno := line_of_replacement hr
  have hlast : ∀ c ∈ [d], isSeparator c = false := List.forall_mem_singleton.mpr hd.2
  induction hx : x.length using Nat.strong_induction_on generalizing x y prev prev' with
  | _ m ih =>
      rcases h.cut (p := isSeparator) (by decide) (by decide) with
        ⟨hx', hy'⟩ | ⟨name, sep, q, name', q', rfl, rfl, hsep, hname, hname', hnames, hlater⟩
      · have hboth : ∀ c ∈ x ++ r, isSeparator c = false :=
          List.forall_mem_append.mpr ⟨hx', fun c hc => (hno c hc).1⟩
        rw [overrun_no_separator hboth hlast, overrun_no_separator hy' hlast]
      · have hread : ∀ n s z : List Char, n ++ sep :: s ++ z = n ++ sep :: (s ++ z) :=
          fun n s z => by simp
        by_cases hkeyed : lineStart prev none = true ∧ isKeyed name = true
        · have hkeyed' : lineStart prev' none = true ∧ isKeyed name' = true :=
            ⟨hprev', hnames.isKeyed_eq ▸ hkeyed.2⟩
          have hdrop := dropWhile_replacement hr q
          rw [hread name q r]
          rcases hlater.dropWhile_blank.cut_line with
            ⟨hq, hq'⟩ | ⟨l, x, l', y, hl, hl', hline, hline', hrest⟩
          · refine iff_of_false ?_ (overrun_keyed_last hname' hsep hkeyed' hd.1 hq')
            apply overrun_keyed_last hname hsep hkeyed hd.1
            rw [hdrop]
            exact List.forall_mem_append.mpr ⟨hq, fun c hc => (hno c hc).2⟩
          · have hshorter : x.length < m := by
              have hle := (List.dropWhile_suffix isWhitespace (l := q)).length_le
              rw [hl] at hle
              rw [← hx]
              simp only [List.length_append, List.length_cons] at hle ⊢
              omega
            rw [hl, List.append_assoc, List.cons_append] at hdrop
            rw [overrun_keyed_next hname hsep hkeyed hd.1 hdrop hline,
              overrun_keyed_next hname' hsep hkeyed' hd.1 hl' hline']
            exact ih x.length hshorter hrest rfl rfl rfl
        · have hkeyed' : ¬ (lineStart prev' none = true ∧ isKeyed name' = true) := by
            rintro ⟨-, hkey⟩
            exact hkeyed ⟨hprev, hnames.isKeyed_eq ▸ hkey⟩
          have hfirst : ∀ s, keyValuePattern.first prev (name ++ sep :: q ++ s) = none := by
            intro s
            rw [hread, keyValue_first hname hsep, if_neg hkeyed]
          have hfirst' : ∀ s, keyValuePattern.first prev' (name' ++ sep :: q' ++ s) = none := by
            intro s
            rw [hread, keyValue_first hname' hsep, if_neg hkeyed']
          rcases h.cut_line with ⟨hq, hq'⟩ | ⟨l, x, l', y, hl, hl', hline, hline', hrest⟩
          · rw [overrun_last _ (by rw [List.append_assoc]; exact hfirst _), overrun_last hq' (hfirst' _)]
            exact List.forall_mem_append.mpr ⟨hq, fun c hc => (hno c hc).2⟩
          · have hshorter : x.length < m := by
              rw [← hx, hl, List.length_append, List.length_cons]
              omega
            have hwhole : l ++ '\n' :: x ++ r = l ++ '\n' :: (x ++ r) := by simp
            rw [hl] at hfirst ⊢
            rw [hl'] at hfirst' ⊢
            rw [hwhole, overrun_next hline (by rw [← hwhole, List.append_assoc]; exact hfirst _),
              overrun_next hline' (hfirst' _)]
            exact ih x.length hshorter hrest rfl rfl rfl

end PackageHarness.Redaction
