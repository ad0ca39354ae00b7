/-
# PackageHarness.Guarantees.KeyValues — which lines with a key lose their value.

On a covered line the value is in no part of the output. Nor does it change what is made of the lines
behind it, if they are blank or the value opens no match that goes on in them. On every other line
(a timestamp before the key is enough) the value stands in the output.
-/
import PackageHarness.Guarantees.OpenValues

namespace PackageHarness.Redaction

open Text Text.Regex

variable {c : Char} {s z : List Char}

variable (isWord : Char → Bool) (toRfc3339 : Timestamp → String)

/-- The value of a covered line is in no part of what the patterns leave. -/
theorem covered_redacted (h : KeyedLine) (hcover : h.Covered isWord) :
    ∃ z, ∀ value rest, IsValue value → Follows rest →
      ((∀ c ∈ rest, isWhitespace c = true) ∨ IsClosed value) →
      applyLater isWord (authorizationPattern.replaceAll (h.upTo ++ (value ++ rest))) =
        privateKeyPattern.replaceAll (urlPattern.replaceAll (z ++ keyValuePattern.onward
          ((bearerPattern isWord).onward (authorizationPattern.onward rest)))) := by
  obtain ⟨z, hz⟩ := covered_residue isWord h hcover
  refine ⟨z, ?_⟩
  intro value rest hv hrest hclosed
  obtain ⟨y, hy, hresidue⟩ := residue_line isWord h.upTo_edge hv hclosed hrest
  exact hz _ y _ (hv.opens.append rest) hresidue hy
    ((hrest.onward authorizationPattern).onward (bearerPattern isWord))

/-! ## Every other line -/

/-- The end of a key, and as many exclamation marks. -/
def shout (n : Nat) : List Char := END_PRIVATE_KEY ++ ' ' :: List.replicate n '!'

theorem mem_shout {n : Nat} (h : c ∈ shout n) : c ∈ END_PRIVATE_KEY ++ [' ', '!'] := by
  rcases List.mem_append.mp h with hin | hin
  · exact List.mem_append_left _ hin
  · rcases List.mem_cons.mp hin with rfl | hmark
    · simp
    · rw [List.eq_of_mem_replicate hmark]
      simp

theorem mem_value {n : Nat} (hz : z = [] ∨ z = ['x']) (h : c ∈ z ++ ' ' :: shout n) :
    c ∈ 'x' :: ' ' :: (END_PRIVATE_KEY ++ [' ', '!']) := by
  rcases List.mem_append.mp h with hin | hin
  · rcases hz with rfl | rfl
    · cases hin
    · rw [List.mem_singleton.mp hin]
      exact List.mem_cons_self
  · rcases List.mem_cons.mp hin with rfl | hin
    · simp
    · exact List.mem_cons_of_mem _ (List.mem_cons_of_mem _ (mem_shout hin))

theorem shout_isValue (n : Nat) : IsValue ('x' :: ' ' :: shout n) := by
  have hall : ('x' :: ' ' :: (END_PRIVATE_KEY ++ [' ', '!'])).all (fun c => c != '\n') = true := rfl
  refine ⟨⟨'x', _, rfl, rfl⟩, fun c hc => ?_⟩
  simpa using List.all_eq_true.mp hall c (mem_value (z := ['x']) (Or.inr rfl) hc)

/-- The first two patterns leave it as it is. -/
theorem shout_stays (n : Nat) (s : List Char) :
    ∃ rest, (bearerPattern isWord).replaceFrom 0 (some ' ')
      (authorizationPattern.replaceFrom 0 (some ' ') (shout n ++ s)) = shout n ++ rest := by
  have hbearer : ∀ c ∈ shout n, ∀ prev s, (bearerPattern isWord).first prev (c :: s) = none := by
    have hall : (END_PRIVATE_KEY ++ [' ', '!']).all (fun c => !sameLetter 'b' c) = true := rfl
    intro c hc
    apply bearer_idle
    simpa using List.all_eq_true.mp hall c (mem_shout hc)
  have hmarks : ∀ c ∈ ' ' :: List.replicate n '!', ∀ prev s,
      authorizationPattern.first prev (c :: s) = none := by
    intro c hc prev s
    have hspelled : spelled sameLetter AUTHORIZATION (c :: s) = false := by
      rcases List.mem_cons.mp hc with rfl | hmark
      · rfl
      · rw [List.eq_of_mem_replicate hmark]
        rfl
    rw [first_eq, headerAt, hspelled]
    rfl
  have hend : ∀ t, t ≠ [] → t <:+ END_PRIVATE_KEY → ∀ prev,
      authorizationPattern.first prev (t ++ (' ' :: List.replicate n '!' ++ s)) = none := by
    intro t hne ht prev
    have hspelled : spelled sameLetter AUTHORIZATION
        (t ++ ' ' :: (List.replicate n '!' ++ s)) = false := end_no_word rfl ht hne _
    rw [List.cons_append, first_eq, headerAt, hspelled]
    rfl
  obtain ⟨hwritten, hstop⟩ := Rewrite.written_idle hmarks (lastOf (some ' ') END_PRIVATE_KEY) s
  have hfirst : authorizationPattern.replaceFrom 0 (some ' ') (shout n ++ s) =
      shout n ++ authorizationPattern.replaceFrom 0 (lastOf (lastOf (some ' ') END_PRIVATE_KEY)
        (' ' :: List.replicate n '!')) s := by
    rw [shout, List.append_assoc, Rewrite.replaceFrom_quiet hend, Rewrite.replaceFrom_append, hwritten,
      hstop, List.append_assoc]
  obtain ⟨hwritten', hstop'⟩ := Rewrite.written_idle hbearer (some ' ')
    (authorizationPattern.replaceFrom 0 (lastOf (lastOf (some ' ') END_PRIVATE_KEY)
      (' ' :: List.replicate n '!')) s)
  rw [hfirst, Rewrite.replaceFrom_append, hwritten', hstop']
  exact ⟨_, rfl⟩

theorem no_shout_in_secret (p : List Char) (h : looksSecret p = true) : '!' ∉ p := by
  intro hmem
  rcases ((looksSecret_iff p).mp h).2.1 '!' hmem with halnum | hmark
  · cases halnum
  · exact absurd hmark (by decide)

/-- On a line that is not covered the exclamation marks stand in the output, whatever follows. -/
theorem uncovered_line (h : KeyedLine) (hcover : ¬ h.Covered isWord) (n : Nat) (rest : List Char) :
    n ≤ (redacted isWord (h.upTo ++ ('x' :: ' ' :: (shout n ++ rest)))).count '!' := by
  have hedge := h.upTo_edge
  have hopens : Opens ('x' :: ' ' :: (shout n ++ rest)) := ⟨'x', _, rfl, rfl⟩
  obtain ⟨z, hz, hresidue⟩ := residue_x isWord hedge (s := shout n ++ rest) ⟨'-', _, rfl, rfl⟩ (by
    intro hcolon
    cases hcolon)
  obtain ⟨later, hlater⟩ := shout_stays isWord n rest
  have hmeets := hedge.meets_lead isWord hopens
  rw [hlater] at hresidue
  have hread : residue isWord h.upTo ('x' :: ' ' :: (shout n ++ rest)) =
      z ++ ' ' :: shout n ++ later := by
    rw [hresidue]
    simp
  rw [hread] at hmeets
  have hplain : ∀ c ∈ z ++ ' ' :: shout n, isSeparator c = false ∧ c ≠ '\n' := by
    have hall : ('x' :: ' ' :: (END_PRIVATE_KEY ++ [' ', '!'])).all
        (fun c => !isSeparator c && c != '\n') = true := rfl
    intro c hc
    simpa using List.all_eq_true.mp hall c (mem_value hz hc)
  have hstop := not_not.mp fun hne => hcover ((h.covered_lead isWord).mpr hne)
  obtain ⟨a, b, hthird⟩ := keyValue_keeps hmeets hstop (by simp) hplain
  have hurl : ∀ e ∈ shout n, sameLetter 'h' e = false := by
    have hall : (END_PRIVATE_KEY ++ [' ', '!']).all (fun c => !sameLetter 'h' c) = true := rfl
    intro e he
    simpa using List.all_eq_true.mp hall e (mem_shout he)
  have hmarks : ∀ e ∈ List.replicate n '!', notDash e = true := by
    intro e he
    rw [List.eq_of_mem_replicate he]
    rfl
  obtain ⟨a', b', hfourth⟩ := url_keeps hurl (a ++ z) b
  obtain ⟨a'', b'', hfifth⟩ := privateKey_keeps hmarks a' b'
  have hall : redacted isWord (h.upTo ++ ('x' :: ' ' :: (shout n ++ rest))) =
      redactChars (a'' ++ ' ' :: (List.replicate n '!' ++ b'')) := by
    have hbehind : a ++ (z ++ ' ' :: shout n ++ b) = a ++ z ++ ' ' :: (shout n ++ b) := by simp
    have hshout : a' ++ ' ' :: (shout n ++ b') =
        a' ++ ' ' :: (END_PRIVATE_KEY ++ ' ' :: (List.replicate n '!' ++ b')) := by simp [shout]
    show redactChars (privateKeyPattern.replaceAll (urlPattern.replaceAll (keyValuePattern.replaceAll
      ((bearerPattern isWord).replaceAll (authorizationPattern.replaceAll _))))) = _
    rw [hedge.lead_residue isWord hopens, hread, hthird, hbehind, hfourth, hshout, hfifth]
  rw [hall, count_redactChars no_shout_in_secret (by decide)]
  simp only [List.count_append, List.count_cons, List.count_replicate_self]
  omega

/-- A line on which no value changes the output is covered. -/
theorem covered_of_same {rest : List Char} (h : KeyedLine)
    (hsame : ∀ v v', IsValue v → IsValue v' →
      redacted isWord (h.upTo ++ (v ++ rest)) = redacted isWord (h.upTo ++ (v' ++ rest))) :
    h.Covered isWord := by
  by_contra hcover
  obtain ⟨n, hn⟩ : ∃ n, (redacted isWord (h.upTo ++ ('x' :: ' ' :: shout 0 ++ rest))).count '!' = n :=
    ⟨_, rfl⟩
  -- One exclamation mark more than there are in the output of the first value.
  have hmarks := uncovered_line isWord h hcover (n + 1) rest
  have hcount := congrArg (List.count '!') (hsame _ _ (shout_isValue 0) (shout_isValue (n + 1)))
  rw [hn] at hcount
  exact Nat.not_succ_le_self n (hmarks.trans hcount.ge)

/-! ## The guarantee -/

/-- With these lines behind it, no value changes the output, wherever that is cut. -/
def KeyedLine.Hides (h : KeyedLine) (rest : List Char) : Prop :=
  ∀ value value' limit, IsValue value → IsValue value' →
    redactAndBound (compiled isWord toRfc3339) (h.text value rest) limit =
      redactAndBound (compiled isWord toRfc3339) (h.text value' rest) limit

theorem KeyedLine.Hides.redacted_eq {h : KeyedLine} {rest v v' : List Char}
    (hhides : h.Hides isWord toRfc3339 rest) (hv : IsValue v) (hv' : IsValue v') :
    redacted isWord (h.upTo ++ (v ++ rest)) = redacted isWord (h.upTo ++ (v' ++ rest)) :=
  redacted_of_redactAndBound isWord toRfc3339 fun limit => hhides v v' limit hv hv'

theorem covered_same (h : KeyedLine) (hcover : h.Covered isWord) {rest value value' : List Char}
    (hrest : Follows rest) (hv : IsValue value) (hv' : IsValue value')
    (hclosed : (∀ c ∈ rest, isWhitespace c = true) ∨ IsClosed value ∧ IsClosed value') (limit : Nat) :
    redactAndBound (compiled isWord toRfc3339) (h.text value rest) limit =
      redactAndBound (compiled isWord toRfc3339) (h.text value' rest) limit := by
  obtain ⟨z, hz⟩ := covered_redacted isWord h hcover
  rw [KeyedLine.text, KeyedLine.text, redactAndBound_eq, redactAndBound_eq, redacted, redacted,
    hz value rest hv hrest (hclosed.imp_right And.left),
    hz value' rest hv' hrest (hclosed.imp_right And.right)]

/-- A line of a log, up to the value: a timestamp stands before the key. -/
def timestampedLine : KeyedLine where
  before := []
  pre := "12:00 ".toList
  key := "TOKEN".toList
  beforeSep := []
  sep := '='
  afterSep := []
  before_lines := Or.inl rfl
  pre_line := by
    have hall : "12:00 ".toList.all (fun c => c != '\n') = true := rfl
    intro c hc
    simpa using List.all_eq_true.mp hall c hc
  key_identifier := by
    have hall : "TOKEN".toList.all (fun c => c.isAlphanum || c == '_') = true := rfl
    intro c hc
    simpa using List.all_eq_true.mp hall c hc
  key_named := ⟨"token".toList, List.mem_cons_self, List.infix_refl _⟩
  beforeSep_blank := fun _ hc => absurd hc List.not_mem_nil
  sep_separator := rfl
  afterSep_blank := fun _ hc => absurd hc List.not_mem_nil

/-- A timestamp before the key keeps the value in the output. -/
theorem timestamped_value_shown :
    ¬ ∀ (isWord : Char → Bool) (toRfc3339 : Timestamp → String) (h : KeyedLine)
      (value value' rest : List Char) (limit : Nat), IsValue value → IsValue value' → Follows rest →
        redactAndBound (compiled isWord toRfc3339) (h.text value rest) limit =
          redactAndBound (compiled isWord toRfc3339) (h.text value' rest) limit := by
  intro hsame
  have hequal := hsame asciiWord (fun _ => "") timestampedLine ['x'] ['y'] [] 100
    (isValue_of_all ⟨'x', _, rfl, rfl⟩ rfl) (isValue_of_all ⟨'y', _, rfl, rfl⟩ rfl) (Or.inl rfl)
  exact absurd hequal (by decide)

/-- Whatever follows a line with a key, it hides every value only if it is covered, and a covered line
hides the closed values, or every value if only blanks follow. Unless a boundary line of a private key
ends in what follows, this says exactly when every value is hidden. Where nothing of the text is masked
and no match of an earlier line goes on, a line is covered if what stands before its first separator
names a key: without a separator before the key, unless a carriage return stands there. -/
theorem key_value_hidden_iff (h : KeyedLine) {rest : List Char} (hrest : Follows rest) :
    (h.Covered isWord → ∀ value value' limit, IsValue value → IsValue value' →
      ((∀ c ∈ rest, isWhitespace c = true) ∨ IsClosed value ∧ IsClosed value') →
        redactAndBound (compiled isWord toRfc3339) (h.text value rest) limit =
          redactAndBound (compiled isWord toRfc3339) (h.text value' rest) limit) ∧
    (h.Hides isWord toRfc3339 rest → h.Covered isWord) ∧
    (¬ BOUNDARY_END <:+: rest →
      (h.Hides isWord toRfc3339 rest ↔ h.Covered isWord ∧ ∀ c ∈ rest, isWhitespace c = true)) ∧
    (h.masked isWord = h.upTo → keyValuePattern.overrun 0 none h.before (h.line ++ ['x']) = 0 →
      (∀ name sep r, h.line = name ++ sep :: r → (∀ c ∈ name, isSeparator c = false) →
        isSeparator sep = true → (h.Covered isWord ↔ isKeyed name = true)) ∧
      ((∀ c ∈ h.pre, isSeparator c = false) → (h.Covered isWord ↔ '\r' ∉ h.pre))) := by
  have hcovered : h.Hides isWord toRfc3339 rest → h.Covered isWord := fun hhides =>
    covered_of_same isWord h fun v v' hv hv' => hhides.redacted_eq isWord toRfc3339 hv hv'
  refine ⟨?_, hcovered, ?_, ?_⟩
  · intro hcover value value' limit hv hv' hclosed
    exact covered_same isWord toRfc3339 h hcover hrest hv hv' hclosed limit
  · intro hfree
    constructor
    · intro hhides
      refine ⟨hcovered hhides, ?_⟩
      exact rest_blank isWord h (hcovered hhides) hrest hfree
        fun v v' hv hv' => hhides.redacted_eq isWord toRfc3339 hv hv'
    · rintro ⟨hcover, hblank⟩ value value' limit hv hv'
      exact covered_same isWord toRfc3339 h hcover hrest hv hv' (Or.inl hblank) limit
  · intro hmasked hfree
    refine ⟨?_, fun hpre => h.covered_iff_no_return isWord hpre hmasked hfree⟩
    intro name sep r hline hname hsep
    exact h.covered_iff isWord hline hname hsep hmasked hfree

/-- A line of a log, up to the value: nothing stands before the key. -/
def bareLine : KeyedLine where
  before := []
  pre := []
  key := "TOKEN".toList
  beforeSep := []
  sep := '='
  afterSep := []
  before_lines := Or.inl rfl
  pre_line := fun _ hc => absurd hc List.not_mem_nil
  key_identifier := timestampedLine.key_identifier
  key_named := timestampedLine.key_named
  beforeSep_blank := fun _ hc => absurd hc List.not_mem_nil
  sep_separator := rfl
  afterSep_blank := fun _ hc => absurd hc List.not_mem_nil

/-- It hides every value at the end of a text, but before another line only the closed ones. -/
theorem bare_line_hides :
    bareLine.Hides asciiWord (fun _ => "") ['\n'] ∧
    ¬ bareLine.Hides asciiWord (fun _ => "") "\nnext".toList ∧
    ∀ limit,
      redactAndBound (compiled asciiWord fun _ => "") (bareLine.text ['x'] "\nnext".toList) limit =
        redactAndBound (compiled asciiWord fun _ => "") (bareLine.text ['y'] "\nnext".toList) limit := by
  have hend : Follows ['\n'] := Or.inr ⟨[], rfl⟩
  have hmore : Follows "\nnext".toList := Or.inr ⟨_, rfl⟩
  obtain ⟨-, -, hlast, hkeyed⟩ := key_value_hidden_iff asciiWord (fun _ => "") bareLine hend
  obtain ⟨hclosed, -, hnext, -⟩ := key_value_hidden_iff asciiWord (fun _ => "") bareLine hmore
  have hcover : bareLine.Covered asciiWord :=
    ((hkeyed (by decide) (by decide)).2 fun _ hc => absurd hc List.not_mem_nil).mpr List.not_mem_nil
  refine ⟨(hlast (by decide)).mpr ⟨hcover, List.forall_mem_singleton.mpr rfl⟩, ?_, ?_⟩
  · intro hhides
    have hblank := ((hnext (by decide)).mp hhides).2 'n' (by simp)
    cases hblank
  · intro limit
    exact hclosed hcover _ _ limit (isValue_of_all ⟨'x', _, rfl, rfl⟩ rfl)
      (isValue_of_all ⟨'y', _, rfl, rfl⟩ rfl)
      (Or.inr ⟨isClosed_of_short (by decide), isClosed_of_short (by decide)⟩)

end PackageHarness.Redaction
