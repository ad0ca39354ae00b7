/-
# PackageHarness.Analysis.KeyedLines — a line with a key, up to the value.

A line is covered if a match of the key pattern reaches the value, in the text up to the value with
marks for the header values and the bearer tokens in it. The pattern is tied to the start of a line and
reads no separator before the key: where nothing is marked, a line is covered if what stands before its
first separator names a key.
-/
import PackageHarness.Analysis.Coverage
import PackageHarness.Analysis.LineEnds

namespace PackageHarness.Redaction

open Text Text.Regex

variable {c d : Char} {s t u v x y : List Char}

/-- A text up to the value of a key. -/
structure KeyedLine where
  before : List Char
  pre : List Char
  key : List Char
  beforeSep : List Char
  sep : Char
  afterSep : List Char
  before_lines : before = [] ∨ ∃ x, before = x ++ ['\n']
  pre_line : ∀ c ∈ pre, c ≠ '\n'
  key_identifier : ∀ c ∈ key, c.isAlphanum = true ∨ c = '_'
  key_named : ∃ word ∈ KEY_WORDS, word <:+: key.map Char.toLower
  beforeSep_blank : ∀ c ∈ beforeSep, isWhitespace c = true ∧ c ≠ '\n'
  sep_separator : isSeparator sep = true
  afterSep_blank : ∀ c ∈ afterSep, isWhitespace c = true ∧ c ≠ '\n'

namespace KeyedLine

variable (h : KeyedLine)

/-- Up to the value. -/
def upTo : List Char := h.before ++ (h.pre ++ (h.key ++ (h.beforeSep ++ h.sep :: h.afterSep)))

/-- The text with a value, and with what follows its line. -/
def text (value rest : List Char) : String := String.ofList (h.upTo ++ (value ++ rest))

/-- The text up to the value, with a mark for every character that is the value of a header or a
bearer token; `x` stands for the value behind it. -/
def masked (isWord : Char → Bool) : List Char :=
  (bearerPattern isWord).masked '*' 0 none (authorizationPattern.masked '*' 0 none h.upTo ['x']) ['x']

/-- A match of the key pattern in the masked text reaches the value. -/
def Covered (isWord : Char → Bool) : Prop :=
  keyValuePattern.overrun 0 none (h.masked isWord) ['x'] ≠ 0

/-- What the first two patterns write in the place of the marks does not matter. -/
theorem covered_lead (isWord : Char → Bool) :
    h.Covered isWord ↔ keyValuePattern.overrun 0 none (lead isWord h.upTo) ['x'] ≠ 0 := by
  obtain ⟨p, r, hlead, hr, halike⟩ := (struck_written none h.upTo 'x').alike isWord none 'x'
  have hstart : lineStart none none = true := rfl
  have hread : keyValuePattern.overrun 0 none (lead isWord h.upTo) ['x'] = 0 ↔
      keyValuePattern.overrun 0 none (h.masked isWord) ['x'] = 0 := by
    rw [lead, headed, hlead]
    exact halike.overrun_iff hr ⟨rfl, rfl⟩ hstart hstart
  exact (not_congr hread).symm

theorem upTo_edge : Edge h.upTo :=
  ⟨h.before ++ (h.pre ++ (h.key ++ h.beforeSep)), h.sep, h.afterSep, by simp [upTo],
    by rw [isMark, h.sep_separator]; rfl, h.afterSep_blank⟩

end KeyedLine

/-! ## A covered line -/

theorem Edge.last (h : Edge u) : ∃ q d, u = q ++ [d] ∧ d ≠ '\n' := by
  obtain ⟨q, e, b, rfl, he, hb⟩ := h
  rcases List.eq_nil_or_concat b with rfl | ⟨y, d, rfl⟩
  · refine ⟨q, e, rfl, ?_⟩
    rintro rfl
    cases he
  · rw [List.concat_eq_append] at hb ⊢
    exact ⟨q ++ e :: y, d, by simp, (hb d (by simp)).2⟩

/-- The line goes on behind an edge. -/
theorem Edge.not_start (h : Edge u) (hy : ∀ c ∈ y, c ≠ '\n') :
    lineStart (lastOf none (u ++ y)) none = false := by
  obtain ⟨z, d, hz, hd⟩ : ∃ z d, u ++ y = z ++ [d] ∧ d ≠ '\n' := by
    rcases List.eq_nil_or_concat y with rfl | ⟨z, d, rfl⟩
    · rw [List.append_nil]
      exact h.last
    · exact ⟨u ++ z, d, by simp, hy d (by simp)⟩
  rw [hz, lastOf_concat]
  exact Redaction.not_start hd

/-- What the key pattern makes of a covered line, whatever the value is. -/
theorem covered_line (hu : Edge u) (hcover : keyValuePattern.overrun 0 none u ['x'] ≠ 0) :
    ∃ z, ∀ y s, (∀ c ∈ y, c ≠ '\n') → Follows s → Meets u (y ++ s) →
      keyValuePattern.replaceAll (u ++ (y ++ s)) = z ++ keyValuePattern.onward s := by
  have hx : Meets u ['x'] := ⟨hu, Or.inr ⟨'x', [], rfl, rfl⟩⟩
  obtain ⟨a, t, found, rfl, hne, hstop, hfirst, hlong⟩ :=
    Rewrite.exists_of_overrun hcover (Nat.zero_le _)
  rcases separator_split t with hnone | ⟨name, sep, r, rfl, hname, hsep⟩
  · have hnone' : ∀ c ∈ t ++ ['x'], isSeparator c = false := by
      intro c hc
      rcases List.mem_append.mp hc with hin | hin
      · exact hnone c hin
      · rw [List.mem_singleton.mp hin]
        rfl
    rw [keyValue_first_none hnone'] at hfirst
    cases hfirst
  · have hread : ∀ z, name ++ sep :: r ++ z = name ++ sep :: (r ++ z) := fun z => by simp
    have hwhole : a ++ (name ++ sep :: r) = a ++ name ++ sep :: r := by simp
    rw [hread, keyValue_first hname hsep] at hfirst
    split at hfirst
    case isFalse => cases hfirst
    case isTrue hkey =>
      cases hfirst
      rw [hwhole] at hx
      rcases keyValueAt_cases hsep name (a ++ name) r with ⟨n, hn, hend⟩ | hon
      · rw [hend _ hx] at hlong
        omega
      · refine ⟨keyValuePattern.written 0 none a (name ++ sep :: r ++ ['x']) ++
          (name ++ sep :: r.takeWhile isWhitespace ++ keyValuePattern.replacement), ?_⟩
        intro y s hy hs hmeets
        have hmem : ∀ t : List Char, ∃ c ∈ t ++ (name ++ sep :: r), isSeparator c = true :=
          fun t => ⟨sep, by simp, hsep⟩
        have hagree : ∀ x t, t ≠ [] → x ++ t = a → Rewrite.AgreeEnds keyValuePattern (lastOf none x) t
            (name ++ sep :: r ++ (y ++ s)) (name ++ sep :: r ++ ['x']) := by
          rintro x t - rfl
          apply keyValue_agree (x := x) (List.append_assoc _ _ _).symm hmeets _ (hmem t) (Or.inl hne)
          rw [hwhole]
          exact hx
        have hline : ∀ c ∈ y, notNewline c = true := fun c hc => bne_iff_ne.mpr (hy c hc)
        have hnext : ∀ c ∈ s.head?, notNewline c = false := by
          intro c hc
          rw [(hs.blank c hc).2]
          rfl
        have hfound : keyValuePattern.first (lastOf none a) (name ++ sep :: r ++ (y ++ s)) =
            some (keyValueAt name sep (r ++ (y ++ s))) := by
          rw [hread, keyValue_first hname hsep, if_pos hkey]
        have hmeets' := hmeets
        rw [hwhole] at hmeets'
        obtain ⟨-, hdropped, hbehind⟩ := hon _ hmeets'
        rw [dropWhile_stop hline hnext] at hbehind
        have htaken : (keyValueAt name sep (r ++ (y ++ s))).kept ++
            (keyValueAt name sep (r ++ (y ++ s))).dropped = name ++ sep :: r ++ y := by
          have hsplit := Rewrite.first_split hfound
          rw [hbehind, ← List.append_assoc _ y s] at hsplit
          exact (List.append_cancel_right hsplit).symm
        have hstart : lineStart (lastOf (lastOf none a) (name ++ sep :: r ++ y)) none = false := by
          rw [← lastOf_append, ← List.append_assoc]
          exact hu.not_start hy
        rw [Rewrite.replaceAll, List.append_assoc a, Rewrite.replaceFrom_append,
          Rewrite.written_agree (fun x t ht hx => (hagree x t ht hx).agree) (Or.inl rfl),
          (Rewrite.overrun_agree hagree (Or.inl rfl)).mpr hstop, Rewrite.replaceFrom_found hfound,
          htaken, hbehind, keyValueAt_kept hsep hmeets',
          Rewrite.replaceFrom_onward fun _ _ => keyValue_not_start hstart s]
        exact (List.append_assoc _ _ _).symm

/-! ## Which lines are covered -/

namespace KeyedLine

variable (isWord : Char → Bool) (h : KeyedLine)

/-- The line of the key, up to the value. -/
def line : List Char := h.pre ++ (h.key ++ (h.beforeSep ++ h.sep :: h.afterSep))

theorem line_no_newline : ∀ c ∈ h.line, c ≠ '\n' := by
  have hkey : ∀ c ∈ h.key, c ≠ '\n' := by
    rintro c hc rfl
    rcases h.key_identifier _ hc with hletter | hlow
    · cases hletter
    · cases hlow
  have hsep : h.sep ≠ '\n' := by
    intro heq
    have hseparator := h.sep_separator
    rw [heq] at hseparator
    cases hseparator
  simp only [line, List.forall_mem_append, List.forall_mem_cons]
  exact ⟨h.pre_line, hkey, fun c hc => (h.beforeSep_blank c hc).2, hsep,
    fun c hc => (h.afterSep_blank c hc).2⟩

theorem before_lineStart : lineStart (lastOf none h.before) none = true := by
  rcases h.before_lines with hnil | ⟨x, hx⟩
  · rw [hnil]
    rfl
  · rw [hx, lastOf_concat]
    rfl

/-- Where nothing is masked and no match of an earlier line goes on, a line is covered if what stands
before its first separator names a key. -/
theorem covered_iff {name r : List Char} {sep : Char} (hline : h.line = name ++ sep :: r)
    (hname : ∀ c ∈ name, isSeparator c = false) (hsep : isSeparator sep = true)
    (hmasked : h.masked isWord = h.upTo)
    (hfree : keyValuePattern.overrun 0 none h.before (h.line ++ ['x']) = 0) :
    h.Covered isWord ↔ isKeyed name = true := by
  have htext : h.upTo = h.before ++ h.line := rfl
  have hstart := h.before_lineStart
  rw [Covered, hmasked, htext, Rewrite.overrun_append, hfree]
  by_cases hkey : isKeyed name = true
  · refine iff_of_true ?_ hkey
    rw [hline]
    apply overrun_keyed_last hname hsep ⟨hstart, hkey⟩ rfl
    intro c hc
    apply h.line_no_newline
    rw [hline]
    exact List.mem_append_right _ (List.mem_cons_of_mem _ ((List.dropWhile_suffix _).subset hc))
  · refine iff_of_false ?_ hkey
    have hnone : keyValuePattern.first (lastOf none h.before) (h.line ++ ['x']) = none := by
      rw [hline, List.append_assoc, List.cons_append, keyValue_first hname hsep,
        if_neg fun hboth => hkey hboth.2]
    exact fun hne => hne (overrun_last h.line_no_newline hnone)

theorem key_not_blank : ∀ c ∈ h.key, isWhitespace c = false := by
  intro c hc
  rcases h.key_identifier c hc with hletter | hlow
  · exact not_isWhitespace_of_isAlphanum hletter
  · rw [hlow]
    rfl

theorem key_ne_nil : h.key ≠ [] := by
  intro hnil
  obtain ⟨word, hword, hkey⟩ := h.key_named
  have hall : KEY_WORDS.all (fun w => !w.isEmpty) = true := rfl
  have hne := List.all_eq_true.mp hall word hword
  rw [hnil, List.map_nil, List.infix_nil] at hkey
  rw [hkey] at hne
  cases hne

theorem key_isKeyChar : ∀ c ∈ h.key, isKeyChar c = true := by
  intro c hc
  cases hchar : isKeyChar c with
  | true => rfl
  | false =>
      rw [isKeyChar, Bool.not_eq_false', Bool.or_eq_true, Bool.or_eq_true, Bool.or_eq_true, beq_iff_eq,
        beq_iff_eq, beq_iff_eq, beq_iff_eq] at hchar
      rcases h.key_identifier c hc with hletter | rfl
      · rcases hchar with ((rfl | rfl) | rfl) | rfl <;> cases hletter
      · rcases hchar with ((heq | heq) | heq) | heq <;> cases heq

/-- Without a separator before the key, only a carriage return there keeps a line from naming it. -/
theorem isKeyed_name (hpre : ∀ c ∈ h.pre, isSeparator c = false) :
    isKeyed (h.pre ++ (h.key ++ h.beforeSep)) = true ↔ '\r' ∉ h.pre := by
  obtain ⟨word, hword, k₁, k₂, hkey⟩ := h.key_named
  obtain ⟨y, y₂, hy, hy₁, hk₂⟩ := List.map_eq_append_iff.mp hkey.symm
  obtain ⟨y₁, x, rfl, hk₁, hx⟩ := List.map_eq_append_iff.mp hy₁
  have hspells : Spells sameLetter word x := by
    have hall : KEY_WORDS.all (fun w => w.all fun c => c.toNat ≤ 122) = true := rfl
    exact spells_of_toLower (List.all_eq_true.mp hall word hword) hx
  rw [isKeyed_iff]
  constructor
  · rintro ⟨a, x', b, blanks, hsplit, ha, ⟨w, hw, hspells'⟩, hb, hblanks⟩ hmem
    have hown : '\r' ∉ a ++ (x' ++ b) := by
      have hclass : ∀ z : List Char, (∀ c ∈ z, isKeyChar c = true) → '\r' ∉ z := fun z hz hin =>
        Bool.false_ne_true (hz _ hin)
      have hword' : '\r' ∉ x' := by
        intro hin
        have hfalse := no_blank_of_spells (no_blank_key_word hw) hspells' _ hin
        cases hfalse
      rw [List.mem_append, List.mem_append, not_or, not_or]
      exact ⟨hclass a ha, hword', hclass b hb⟩
    obtain ⟨q, z, hpre'⟩ := List.append_of_mem hmem
    have hwhole : q ++ '\r' :: (z ++ (h.key ++ h.beforeSep)) = a ++ (x' ++ b) ++ blanks := by
      simpa [hpre'] using hsplit
    -- What stands behind the carriage return is a part of the blanks, and the key is not.
    have hbehind : ∀ c ∈ h.key, c ∈ blanks := by
      intro c hc
      rcases List.append_eq_append_iff.mp hwhole with ⟨e, he, hrest⟩ | ⟨e, -, hrest⟩
      · cases e with
        | nil =>
            rw [List.nil_append] at hrest
            rw [← hrest]
            simp [hc]
        | cons d e =>
            rw [he, (List.cons_eq_cons.mp hrest).1] at hown
            exact absurd (by simp) hown
      · rw [hrest]
        simp [hc]
    obtain ⟨c, hc⟩ := List.exists_mem_of_ne_nil h.key h.key_ne_nil
    have hblank := hblanks c (hbehind c hc)
    rw [h.key_not_blank c hc] at hblank
    cases hblank
  · intro hreturn
    refine ⟨h.pre ++ y₁, x, y₂, h.beforeSep, by rw [hy]; simp, ?_, ⟨word, hword, hspells⟩, ?_,
      fun c hc => (h.beforeSep_blank c hc).1⟩
    · intro c hc
      rcases List.mem_append.mp hc with hin | hin
      · rw [isKeyChar, Bool.not_eq_true', Bool.or_eq_false_iff, Bool.or_eq_false_iff,
          Bool.or_eq_false_iff, beq_eq_false_iff_ne, beq_eq_false_iff_ne]
        obtain ⟨hcolon, hequals⟩ := Bool.or_eq_false_iff.mp (hpre c hin)
        refine ⟨⟨⟨?_, h.pre_line c hin⟩, hcolon⟩, hequals⟩
        rintro rfl
        exact hreturn hin
      · apply h.key_isKeyChar
        rw [hy]
        simp [hin]
    · intro c hc
      apply h.key_isKeyChar
      rw [hy]
      simp [hc]

/-- Without a separator before the key, such a line is covered unless a carriage return stands
there. -/
theorem covered_iff_no_return (hpre : ∀ c ∈ h.pre, isSeparator c = false)
    (hmasked : h.masked isWord = h.upTo)
    (hfree : keyValuePattern.overrun 0 none h.before (h.line ++ ['x']) = 0) :
    h.Covered isWord ↔ '\r' ∉ h.pre := by
  have hline : h.line = h.pre ++ (h.key ++ h.beforeSep) ++ h.sep :: h.afterSep := by
    simp [line]
  have hname : ∀ c ∈ h.pre ++ (h.key ++ h.beforeSep), isSeparator c = false := by
    simp only [List.forall_mem_append]
    refine ⟨hpre, ?_, ?_⟩
    · intro c hc
      have hchar := h.key_isKeyChar c hc
      rw [isKeyChar, Bool.not_eq_true', Bool.or_eq_false_iff, Bool.or_eq_false_iff] at hchar
      exact Bool.or_eq_false_iff.mpr ⟨hchar.1.2, hchar.2⟩
    · intro c hc
      cases hseparator : isSeparator c with
      | false => rfl
      | true =>
          have hblank := (h.beforeSep_blank c hc).1
          rw [not_blank_of_isMark (Bool.or_eq_true_iff.mpr (Or.inl hseparator))] at hblank
          cases hblank
  rw [h.covered_iff isWord hline hname h.sep_separator hmasked hfree, h.isKeyed_name hpre]

end KeyedLine

end PackageHarness.Redaction
