/-
# PackageHarness.Guarantees.Credentials — which authorization headers lose their credential.

The header pattern takes one word behind the colon, and a second one only if the first is `Bearer`.
So a Bearer credential is replaced together with its scheme, whatever it is, unless an earlier header
of the text has already taken the name. Of every other header the scheme is replaced in the place of
the credential, which then stands in the output.
-/
import Mathlib.Data.List.Infix
import PackageHarness.Analysis.Endings
import PackageHarness.Guarantees.LongTokens
import PackageHarness.Guarantees.Truncation

namespace PackageHarness.Redaction

open Text Text.Regex

variable {c d : Char} {s t u v x : List Char}

/-- A text up to the credential of an authorization header. -/
structure Header where
  before : List Char
  name : List Char
  beforeColon : List Char
  afterColon : List Char
  scheme : List Char
  blanks : List Char
  named : name.map Char.toLower = AUTHORIZATION
  beforeColon_blank : ∀ c ∈ beforeColon, isWhitespace c = true
  afterColon_blank : ∀ c ∈ afterColon, isWhitespace c = true
  scheme_ne_nil : scheme ≠ []
  scheme_word : ∀ c ∈ scheme, isWhitespace c = false ∧ c ≠ ':'
  blanks_ne_nil : blanks ≠ []
  blanks_blank : ∀ c ∈ blanks, isWhitespace c = true

/-- A non-empty text without blanks. -/
structure IsCredential (credential : List Char) : Prop where
  ne_nil : credential ≠ []
  word : ∀ c ∈ credential, isWhitespace c = false

namespace Header

/-- From the name up to the credential. -/
def field (h : Header) : List Char :=
  h.name ++ (h.beforeColon ++ ':' :: (h.afterColon ++ (h.scheme ++ h.blanks)))

/-- The text with a credential, and with what follows it. -/
def text (h : Header) (credential after : List Char) : String :=
  String.ofList (h.before ++ (h.field ++ (credential ++ after)))

def IsBearer (h : Header) : Prop := h.scheme.map Char.toLower = BEARER

/-- No match that begins before the name takes a part of it. -/
def Unshadowed (h : Header) : Prop := authorizationPattern.overrun 0 none h.before h.name = 0

end Header

/-! ## The parts of a header -/

namespace Header

variable (h : Header)

theorem spells_name : Spells sameLetter AUTHORIZATION h.name := spells_of_toLower rfl h.named

theorem isBearer_iff : h.IsBearer ↔ Spells sameLetter BEARER h.scheme := by
  constructor
  · intro hbearer
    exact spells_of_toLower rfl hbearer
  · intro hspells
    have hall : BEARER.all (fun c => c != 's' && c != 'k') = true := rfl
    apply toLower_of_spells _ hspells
    intro c hc
    simpa using List.all_eq_true.mp hall c hc

theorem name_length : h.name.length = 13 := h.spells_name.length_eq.symm

theorem name_opens (s : List Char) : Opens (h.name ++ s) ∧ (h.name ++ s).head? ≠ some ':' := by
  have hspells := h.spells_name
  have hblank := no_blank_of_spells no_blank_authorization hspells
  have hlength := h.name_length
  have hfold := spells_iff.mp hspells
  cases hname : h.name with
  | nil =>
      rw [hname] at hlength
      cases hlength
  | cons c x =>
      rw [hname] at hblank hfold
      refine ⟨⟨c, x ++ s, rfl, hblank c List.mem_cons_self⟩, ?_⟩
      intro hcolon
      cases hcolon
      cases (List.cons_eq_cons.mp hfold).1

end Header

/-- Only the whole word ends as it begins. -/
theorem authorization_border : ∀ e ∈ AUTHORIZATION.tails, e <+: AUTHORIZATION →
    e = [] ∨ e = AUTHORIZATION := by
  decide

theorem Header.seam (h : Header) (ht : t ≠ []) (s : List Char) : Seam t (h.name ++ s) where
  opens := (h.name_opens s).1
  colon _ _ := (h.name_opens s).2
  name := by
    intro hspelled
    by_contra hshort
    obtain ⟨y, rest, hsplit, hy⟩ := spelled_iff.mp hspelled
    have hlength : y.length = 13 := hy.length_eq.symm
    -- The rest of the word would be its beginning.
    obtain ⟨e, rfl⟩ : t <+: y := by
      apply List.prefix_of_prefix_length_le (List.prefix_append t _)
      · rw [hsplit]
        exact List.prefix_append y rest
      · omega
    rw [List.append_assoc, List.append_cancel_left_eq] at hsplit
    rw [List.length_append] at hlength
    have htpos := List.length_pos_of_ne_nil ht
    have hbegins : e <+: h.name := by
      have hrest : e <+: h.name ++ s := by
        rw [hsplit]
        exact List.prefix_append e rest
      apply List.prefix_of_prefix_length_le hrest
      · exact List.prefix_append _ s
      · rw [h.name_length]
        omega
    have hfold := spells_iff.mp hy
    rw [List.map_append] at hfold
    have hends : e.map fold ∈ AUTHORIZATION.tails := by
      rw [List.mem_tails, ← hfold]
      exact List.suffix_append _ _
    have hprefix : e.map fold <+: AUTHORIZATION := by
      rw [← spells_iff.mp h.spells_name]
      exact hbegins.map fold
    rcases authorization_border _ hends hprefix with hnil | hwhole
    · rw [List.map_eq_nil_iff] at hnil
      rw [hnil, List.length_nil] at hlength
      omega
    · have hwholeLength := congrArg List.length hwhole
      rw [List.length_map] at hwholeLength
      have hthirteen : AUTHORIZATION.length = 13 := rfl
      omega

/-! ## A Bearer header -/

theorem authorization_blind :
    (authorizationPattern.group.seq authorizationPattern.rest).blind = true := rfl

theorem not_blank_of_opens {p : Char → Bool} (hs : Opens s) (hp : ∀ c, isWhitespace c = false → p c = false) :
    ∀ c ∈ s.head?, p c = false := by
  obtain ⟨d, x, rfl, hd⟩ := hs
  intro c hc
  cases hc
  exact hp d hd

theorem valueSplit_bearer (hspells : Spells sameLetter BEARER s) (hx : x ≠ [])
    (hblank : ∀ c ∈ x, isWhitespace c = true) (hv : Opens v) :
    valueSplit (s ++ (x ++ v)) =
      (s ++ x ++ v.takeWhile notWhitespace, v.dropWhile notWhitespace) := by
  have hlength : s.length = 6 := hspells.length_eq.symm
  have hspelled : spelled sameLetter BEARER (s ++ (x ++ v)) = true :=
    spelled_iff.mpr ⟨s, _, rfl, hspells⟩
  have hstop := not_blank_of_opens hv fun _ hc => hc
  have hne : v ≠ [] := by
    obtain ⟨c, y, rfl, -⟩ := hv
    exact List.cons_ne_nil c y
  simp only [valueSplit, List.drop_left' hlength, List.take_left' hlength,
    takeWhile_stop hblank hstop, dropWhile_stop hblank hstop]
  exact if_pos ⟨hspelled, hx, hne⟩

namespace Header

variable (h : Header)

/-- What a match at the name keeps. -/
def kept : List Char := h.name ++ (h.beforeColon ++ ':' :: h.afterColon)

theorem field_append (s : List Char) : h.field ++ s =
    h.name ++ (h.beforeColon ++ ':' :: (h.afterColon ++ (h.scheme ++ (h.blanks ++ s)))) := by
  simp [field]

theorem scheme_opens (s : List Char) : Opens (h.scheme ++ s) := by
  cases hscheme : h.scheme with
  | nil => exact absurd hscheme h.scheme_ne_nil
  | cons c x => exact ⟨c, x ++ s, rfl, (h.scheme_word c (by rw [hscheme]; simp)).1⟩

theorem headerAt_field (s : List Char) :
    headerAt (h.field ++ s) = some {
      kept := h.kept
      dropped := (valueSplit (h.scheme ++ (h.blanks ++ s))).1
      behind := (valueSplit (h.scheme ++ (h.blanks ++ s))).2 } := by
  have hspelled : spelled sameLetter AUTHORIZATION (h.name ++ (h.beforeColon ++
      ':' :: (h.afterColon ++ (h.scheme ++ (h.blanks ++ s))))) = true :=
    spelled_iff.mpr ⟨h.name, _, rfl, h.spells_name⟩
  have hopens := h.scheme_opens (h.blanks ++ s)
  have hcolon : ∀ c ∈ (':' :: (h.afterColon ++ (h.scheme ++ (h.blanks ++ s)))).head?,
      isWhitespace c = false := by
    intro c hc
    cases hc
    rfl
  have hvalue := not_blank_of_opens hopens fun _ hc => hc
  have hne : h.scheme ++ (h.blanks ++ s) ≠ [] := by
    obtain ⟨c, x, heq, -⟩ := hopens
    rw [heq]
    exact List.cons_ne_nil c x
  rw [field_append, headerAt, if_pos hspelled, List.take_left' h.name_length,
    List.drop_left' h.name_length, takeWhile_stop h.beforeColon_blank hcolon,
    dropWhile_stop h.beforeColon_blank hcolon, headerFrom,
    takeWhile_stop h.afterColon_blank hvalue, dropWhile_stop h.afterColon_blank hvalue,
    if_pos ⟨rfl, hne⟩]
  rfl

theorem before_agree (s s' : List Char) : ∀ x t, t ≠ [] → x ++ t = h.before →
    Rewrite.AgreeEnds authorizationPattern (lastOf none x) t (h.name ++ s) (h.name ++ s') :=
  fun x _ ht _ => header_agree (h.seam ht s) (h.seam ht s') (lastOf none x)

theorem unshadowed_iff (s : List Char) : h.Unshadowed ↔
    authorizationPattern.overrun 0 none h.before (h.field ++ s) = 0 := by
  rw [field_append, Unshadowed, ← List.append_nil h.name]
  nth_rewrite 2 [List.append_nil]
  exact Rewrite.overrun_agree (h.before_agree [] _) (Or.inl rfl)

/-- The credential of a Bearer header is in no part of what the first pattern leaves. -/
theorem replaceAll_bearer {credential : List Char} (hbearer : h.IsBearer) (hfree : h.Unshadowed)
    (hc : IsCredential credential) (after : List Char) :
    authorizationPattern.replaceAll (h.before ++ (h.field ++ (credential ++ after))) =
      authorizationPattern.written 0 none h.before h.name ++ (h.kept ++
        authorizationPattern.replacement ++
          authorizationPattern.replaceFrom 0 none (after.dropWhile notWhitespace)) := by
  have hword : ∀ c ∈ credential, notWhitespace c = true := fun c hmem => by
    rw [notWhitespace, hc.word c hmem]
    rfl
  have hopens : Opens (credential ++ after) := by
    obtain ⟨c, x, hx⟩ := List.exists_cons_of_ne_nil hc.ne_nil
    rw [hx]
    exact ⟨c, x ++ after, rfl, hc.word c (by rw [hx]; simp)⟩
  have hvalue := valueSplit_bearer (h.isBearer_iff.mp hbearer) h.blanks_ne_nil h.blanks_blank hopens
  rw [List.dropWhile_append_of_pos hword] at hvalue
  have hfirst := h.headerAt_field (credential ++ after)
  rw [← first_eq (lastOf none h.before), hvalue] at hfirst
  have hwritten : authorizationPattern.written 0 none h.before (h.field ++ (credential ++ after)) =
      authorizationPattern.written 0 none h.before h.name := by
    rw [field_append]
    nth_rewrite 2 [← List.append_nil h.name]
    exact Rewrite.written_agree (fun x t ht hx => (h.before_agree _ [] x t ht hx).agree) (Or.inl rfl)
  rw [Rewrite.replaceAll, Rewrite.replaceFrom_append, hwritten, (h.unshadowed_iff _).mp hfree,
    Rewrite.replaceFrom_found hfirst]
  rw [Rewrite.replaceFrom_blind authorization_blind _ none]

end Header

/-! ## Every other header -/

/-- The last run of a class is only one. -/
theorem run_unique {p : Char → Bool} {x x' y y' : List Char} (h : x ++ y = x' ++ y')
    (hy : ∀ c ∈ y, p c = true) (hy' : ∀ c ∈ y', p c = true) (hx : ∀ c ∈ x.getLast?, p c = false)
    (hx' : ∀ c ∈ x'.getLast?, p c = false) : x = x' ∧ y = y' := by
  have hrev : y.reverse ++ x.reverse = y'.reverse ++ x'.reverse := by
    rw [← List.reverse_append, ← List.reverse_append, h]
  have hall : ∀ c ∈ y.reverse, p c = true := fun c hc => hy c (List.mem_reverse.mp hc)
  have hall' : ∀ c ∈ y'.reverse, p c = true := fun c hc => hy' c (List.mem_reverse.mp hc)
  rw [← List.head?_reverse] at hx hx'
  have hrun : y.reverse = y'.reverse := by
    rw [← takeWhile_stop hall hx, hrev, takeWhile_stop hall' hx']
  have hrest : x.reverse = x'.reverse := by
    rw [← dropWhile_stop hall hx, hrev, dropWhile_stop hall' hx']
  exact ⟨List.reverse_injective hrest, List.reverse_injective hrun⟩

namespace Header

variable (h : Header)

theorem mem_of_getLast?_append {e : Char} {x y : List Char}
    (hc : c ∈ (x ++ e :: y).getLast?) : c ∈ e :: y := by
  rw [List.getLast?_append_of_ne_nil x (List.cons_ne_nil e y)] at hc
  exact List.mem_of_getLast? hc

theorem no_colon_of_bearer (hs : Spells sameLetter BEARER s) : ∀ c ∈ s, c ≠ ':' := by
  rintro c hc rfl
  have hmem : ':' ∈ BEARER := by
    rw [← spells_iff.mp hs]
    exact List.mem_map_of_mem (f := fold) hc
  exact absurd hmem (by decide)

/-- A Bearer header that ends with the scheme is this header. -/
theorem field_unique {q name b₁ b₂ scheme : List Char}
    (heq : q ++ (name ++ (b₁ ++ ':' :: (b₂ ++ scheme))) =
      h.before ++ (h.name ++ (h.beforeColon ++ ':' :: (h.afterColon ++ h.scheme))))
    (hname : Spells sameLetter AUTHORIZATION name) (hb₁ : ∀ c ∈ b₁, isWhitespace c = true)
    (hb₂ : ∀ c ∈ b₂, isWhitespace c = true) (hscheme : Spells sameLetter BEARER scheme) :
    scheme = h.scheme ∧ (name ++ (b₁ ++ ':' :: (b₂ ++ scheme))).length =
      (h.name ++ (h.beforeColon ++ ':' :: (h.afterColon ++ h.scheme))).length := by
  -- The scheme is the last run of characters that are neither blanks nor colons.
  have hletters : ∀ c ∈ scheme, (!isWhitespace c && c != ':') = true := by
    intro c hc
    rw [no_blank_of_spells no_blank_bearer hscheme c hc, bne_iff_ne.mpr (no_colon_of_bearer hscheme c hc)]
    rfl
  have hletters' : ∀ c ∈ h.scheme, (!isWhitespace c && c != ':') = true := by
    intro c hc
    rw [(h.scheme_word c hc).1, bne_iff_ne.mpr (h.scheme_word c hc).2]
    rfl
  have hedge : ∀ (x b : List Char), (∀ c ∈ b, isWhitespace c = true) →
      ∀ c ∈ (x ++ ':' :: b).getLast?, (!isWhitespace c && c != ':') = false := by
    intro x b hb c hc
    rcases List.mem_cons.mp (mem_of_getLast?_append hc) with rfl | hmem
    · rfl
    · rw [hb c hmem]
      rfl
  have hsplit : (q ++ name ++ b₁ ++ ':' :: b₂) ++ scheme =
      (h.before ++ h.name ++ h.beforeColon ++ ':' :: h.afterColon) ++ h.scheme := by
    simpa using heq
  obtain ⟨hrest, rfl⟩ := run_unique hsplit hletters hletters' (hedge _ b₂ hb₂)
    (hedge _ h.afterColon h.afterColon_blank)
  -- The blanks on both sides of the colon are last runs too.
  have hcolon : ∀ (x : List Char), ∀ c ∈ (x ++ [':']).getLast?, isWhitespace c = false := by
    intro x c hc
    rw [List.getLast?_concat] at hc
    cases hc
    rfl
  have hsplit₂ : (q ++ name ++ b₁ ++ [':']) ++ b₂ =
      (h.before ++ h.name ++ h.beforeColon ++ [':']) ++ h.afterColon := by
    simpa using hrest
  obtain ⟨hrest₂, rfl⟩ := run_unique hsplit₂ hb₂ h.afterColon_blank (hcolon _) (hcolon _)
  have hlast : ∀ (x name : List Char), Spells sameLetter AUTHORIZATION name →
      ∀ c ∈ (x ++ name).getLast?, isWhitespace c = false := by
    intro x name hspells c hc
    have hlength : name.length = 13 := hspells.length_eq.symm
    have hne : name ≠ [] := fun hnil => by
      rw [hnil] at hlength
      cases hlength
    rw [List.getLast?_append_of_ne_nil x hne] at hc
    exact no_blank_of_spells no_blank_authorization hspells c (List.mem_of_getLast? hc)
  obtain ⟨-, rfl⟩ := run_unique (List.append_cancel_right hrest₂) hb₁ h.beforeColon_blank
    (hlast q name hname) (hlast h.before h.name h.spells_name)
  refine ⟨rfl, ?_⟩
  have hlength : name.length = 13 := hname.length_eq.symm
  simp only [List.length_append, hlength, h.name_length]

/-- A match that begins in the text before the credential ends there, unless it is the match of a
Bearer header at its name. -/
theorem field_stays {found : Found} (ht : t ≠ []) (hsuffix : t <:+ h.before ++ h.field)
    (hs : Opens s) (hcolon : s.head? ≠ some ':') (hfound : headerAt (t ++ s) = some found) :
    found.size ≤ t.length ∨ h.IsBearer ∧ t.length = h.field.length := by
  have hblank : (∀ c ∈ t, isWhitespace c = true) → found.size ≤ t.length := by
    intro hall
    obtain ⟨c, y, rfl⟩ := List.exists_cons_of_ne_nil ht
    rw [List.cons_append, headerAt_blank (hall c List.mem_cons_self)] at hfound
    cases hfound
  have hfield : h.before ++ h.field =
      h.before ++ (h.name ++ (h.beforeColon ++ ':' :: (h.afterColon ++ h.scheme))) ++ h.blanks := by
    simp [field]
  obtain ⟨q, hq⟩ := hsuffix
  rw [hfield] at hq
  rcases List.append_eq_append_iff.mp hq with ⟨y, hy, rfl⟩ | ⟨y, -, hy⟩
  · rcases List.eq_nil_or_concat y with rfl | ⟨y, e, rfl⟩
    · exact Or.inl (hblank h.blanks_blank)
    · rw [List.concat_eq_append] at hy hfound ⊢
      have he : e ∈ h.scheme := by
        have hlast := congrArg List.getLast? hy
        rw [← List.append_assoc q, List.getLast?_concat] at hlast
        have hfieldLast : h.before ++ (h.name ++ (h.beforeColon ++ ':' :: (h.afterColon ++ h.scheme))) =
            h.before ++ h.name ++ h.beforeColon ++ ':' :: h.afterColon ++ h.scheme := by simp
        rw [hfieldLast, List.getLast?_append_of_ne_nil _ h.scheme_ne_nil] at hlast
        exact List.mem_of_getLast? hlast
      have hopens := not_blank_of_opens hs fun _ hc => hc
      have hhead : ∀ c ∈ (h.blanks ++ s).head?, isWhitespace c = true := by
        intro c hc
        rw [List.head?_append_of_ne_nil _ h.blanks_ne_nil] at hc
        exact h.blanks_blank c (List.mem_of_mem_head? hc)
      have hlater : ((h.blanks ++ s).dropWhile isWhitespace).head? ≠ some ':' := by
        rw [dropWhile_stop h.blanks_blank hopens]
        exact hcolon
      have htext : y ++ [e] ++ h.blanks ++ s = y ++ e :: (h.blanks ++ s) := by simp
      rw [htext] at hfound
      rcases header_stays (h.scheme_word e he).1 (h.scheme_word e he).2 hhead hlater hfound with
        hshort | ⟨name, b₁, b₂, scheme, hsplit, hname, hb₁, hb₂, hscheme⟩
      · left
        simp only [List.length_append, List.length_singleton]
        omega
      · right
        rw [hsplit] at hy
        obtain ⟨rfl, hlength⟩ := h.field_unique hy.symm hname hb₁ hb₂ hscheme
        refine ⟨h.isBearer_iff.mpr hscheme, ?_⟩
        rw [List.length_append, hsplit, hlength, field]
        simp only [List.length_append, List.length_cons]
        omega
  · left
    apply hblank
    intro c hc
    apply h.blanks_blank
    rw [hy]
    exact List.mem_append_right y hc

/-- The first pattern reads the credential on its own, unless the header is a Bearer header and its
name is free. -/
theorem overrun_field (hother : ¬ (h.IsBearer ∧ h.Unshadowed)) (hs : Opens s)
    (hcolon : s.head? ≠ some ':') :
    authorizationPattern.overrun 0 none (h.before ++ h.field) s = 0 := by
  apply Nat.eq_zero_of_le_zero
  by_cases hbearer : h.IsBearer
  · have hshadowed : ¬ h.Unshadowed := fun hfree => hother ⟨hbearer, hfree⟩
    rw [h.unshadowed_iff s] at hshadowed
    have hwithin : authorizationPattern.overrun 0 none h.before (h.field ++ s) ≤ h.field.length := by
      apply Rewrite.overrun_le (Nat.zero_le _)
      intro prev t hne hsuffix found hfound
      obtain ⟨q, hq⟩ := hsuffix
      have hlonger : t ++ h.field <:+ h.before ++ h.field := ⟨q, by rw [← hq, List.append_assoc]⟩
      have hne' : t ++ h.field ≠ [] := List.append_ne_nil_of_left_ne_nil hne _
      have htpos := List.length_pos_of_ne_nil hne
      rw [first_eq, ← List.append_assoc] at hfound
      rcases h.field_stays hne' hlonger hs hcolon hfound with hshort | ⟨-, hsame⟩
      · rw [List.length_append] at hshort
        exact hshort
      · rw [List.length_append] at hsame
        omega
    -- The name belongs to an earlier match, and behind it there is no other name.
    rw [Rewrite.overrun_append]
    obtain ⟨n, hn⟩ := Nat.exists_eq_succ_of_ne_zero hshadowed
    rw [hn] at hwithin ⊢
    cases hfield : h.field with
    | nil =>
        rw [hfield] at hwithin
        cases hwithin
    | cons c f =>
        rw [hfield, List.length_cons] at hwithin
        show authorizationPattern.overrun n (some c) f s ≤ 0
        apply Rewrite.overrun_le (Nat.le_of_succ_le_succ hwithin)
        intro prev t hne hsuffix found hfound
        have hlonger : t <:+ h.before ++ h.field := by
          rw [hfield]
          exact (hsuffix.trans (List.suffix_cons c f)).trans (List.suffix_append _ _)
        rw [first_eq] at hfound
        rcases h.field_stays hne hlonger hs hcolon hfound with hshort | ⟨-, hsame⟩
        · exact hshort
        · have hle := hsuffix.length_le
          rw [hfield, List.length_cons] at hsame
          omega
  · apply Rewrite.overrun_le (Nat.zero_le _)
    intro prev t hne hsuffix found hfound
    rw [first_eq] at hfound
    rcases h.field_stays hne hsuffix hs hcolon hfound with hshort | ⟨his, -⟩
    · exact hshort
    · exact absurd his hbearer

end Header

/-! ## The output -/

variable (isWord : Char → Bool) (toRfc3339 : Timestamp → String)

/-- The characters of the output, before it is bounded. -/
def redacted (s : List Char) : List Char :=
  redactChars (applyLater isWord (authorizationPattern.replaceAll s))

theorem redactAndBound_eq (s : List Char) (limit : Nat) :
    redactAndBound (compiled isWord toRfc3339) (String.ofList s) limit =
      truncateUtf8 (String.ofList (redacted isWord s)) limit := by
  rw [redactAndBound, redactLongTokens_eq]
  show truncateUtf8 (String.ofList (redactChars (applyPatterns isWord (String.ofList s)).toList)) limit = _
  rw [applyPatterns_eq, String.toList_ofList, String.toList_ofList]
  rfl

/-- Two outputs that agree for every limit are the same before they are bounded. -/
theorem redacted_of_redactAndBound {s s' : List Char}
    (h : ∀ limit, redactAndBound (compiled isWord toRfc3339) (String.ofList s) limit =
      redactAndBound (compiled isWord toRfc3339) (String.ofList s') limit) :
    redacted isWord s = redacted isWord s' := by
  have hlong := h ((String.ofList (redacted isWord s)).utf8ByteSize +
    (String.ofList (redacted isWord s')).utf8ByteSize)
  rw [redactAndBound_eq, redactAndBound_eq, truncateUtf8_of_le (Nat.le_add_right _ _),
    truncateUtf8_of_le (Nat.le_add_left _ _)] at hlong
  rw [← String.toList_ofList (l := redacted isWord s), hlong, String.toList_ofList]

theorem redacted_tailed (h : Tailed (authorizationPattern.replaceAll s)) :
    '!' ∈ (redacted isWord s).getLast? := by
  obtain ⟨u, d, hu, -⟩ := tailed_applyLater isWord h
  have hsplit : u ++ [d] ++ ['\n', '!'] = (u ++ [d]) ++ '\n' :: ['!'] := rfl
  have hmark : redactChars ['!'] = ['!'] := rfl
  rw [redacted, hu, hsplit, redactChars_append rfl, hmark, List.getLast?_concat]
  rfl

/-- The last character is one that the first pattern leaves there, or the end of a replacement. -/
theorem getLast?_redacted (hc : c ∈ (redacted isWord s).getLast?) :
    c ∈ (authorizationPattern.replaceAll s).getLast? ∨ c = ']' ∨ c = '@' := by
  rcases getLast?_redactChars hc with hown | hmark
  · exact getLast?_applyLater isWord c hown
  · exact Or.inr (Or.inl hmark)

/-- Two ends that a text cannot hide if no header runs into them: the first opens a header that takes
the next line, the second does not. -/
theorem told_apart (hover : ∀ s, Opens s → s.head? ≠ some ':' →
    authorizationPattern.overrun 0 none u s = 0) :
    redacted isWord (u ++ "authorization:\n!".toList) ≠ redacted isWord (u ++ "a\n!".toList) := by
  have hreplaced : ∀ s, Opens s → s.head? ≠ some ':' → authorizationPattern.replaceAll (u ++ s) =
      authorizationPattern.written 0 none u s ++ authorizationPattern.replaceFrom 0 none s := by
    intro s hs hcolon
    rw [Rewrite.replaceAll, Rewrite.replaceFrom_append, hover s hs hcolon,
      Rewrite.replaceFrom_blind authorization_blind _ none]
  have hopens : Opens "authorization:\n!".toList := ⟨'a', _, rfl, rfl⟩
  have hopens' : Opens "a\n!".toList := ⟨'a', _, rfl, rfl⟩
  have hclosed : '!' ∉ (redacted isWord (u ++ "authorization:\n!".toList)).getLast? := by
    have hrest : authorizationPattern.replaceFrom 0 none "authorization:\n!".toList =
        "authorization:\n[REDACTED".toList ++ [']'] := rfl
    intro hlast
    rcases getLast?_redacted isWord hlast with hown | hclose | hat
    · rw [hreplaced _ hopens (by decide), hrest, ← List.append_assoc, List.getLast?_concat] at hown
      cases hown
    · cases hclose
    · cases hat
  have htailed : '!' ∈ (redacted isWord (u ++ "a\n!".toList)).getLast? := by
    have hrest : authorizationPattern.replaceFrom 0 none "a\n!".toList = ['a'] ++ ['\n', '!'] := rfl
    apply redacted_tailed
    rw [hreplaced _ hopens' (by decide), hrest, ← List.append_assoc]
    exact ⟨_, 'a', rfl, rfl⟩
  intro heq
  rw [heq] at hclosed
  exact hclosed htailed

theorem Header.shown (h : Header) (hother : ¬ (h.IsBearer ∧ h.Unshadowed)) :
    redacted isWord (h.before ++ (h.field ++ ("authorization:".toList ++ "\n!".toList))) ≠
      redacted isWord (h.before ++ (h.field ++ ("a".toList ++ "\n!".toList))) := by
  rw [← List.append_assoc h.before, ← List.append_assoc h.before]
  exact told_apart isWord fun s hs hcolon => h.overrun_field hother hs hcolon

/-- The line up to the credential. -/
def basicHeader : Header where
  before := []
  name := "Authorization".toList
  beforeColon := []
  afterColon := [' ']
  scheme := "Basic".toList
  blanks := [' ']
  named := by decide
  beforeColon_blank := fun _ hc => absurd hc List.not_mem_nil
  afterColon_blank := List.forall_mem_singleton.mpr rfl
  scheme_ne_nil := by decide
  scheme_word := by
    have hall : "Basic".toList.all (fun c => !isWhitespace c && c != ':') = true := rfl
    intro c hc
    simpa using List.all_eq_true.mp hall c hc
  blanks_ne_nil := by decide
  blanks_blank := List.forall_mem_singleton.mpr rfl

/-- The word characters among the ASCII characters. -/
def asciiWord (c : Char) : Bool := c.isAlphanum || c == '_'

/-- A header with another scheme: the word `Basic` is replaced, and the credential is not. -/
theorem basic_credential_shown :
    ¬ ∀ (isWord : Char → Bool) (toRfc3339 : Timestamp → String) (h : Header)
      (credential credential' after : List Char) (limit : Nat),
      IsCredential credential → IsCredential credential' →
        redactAndBound (compiled isWord toRfc3339) (h.text credential after) limit =
          redactAndBound (compiled isWord toRfc3339) (h.text credential' after) limit := by
  intro hsame
  have hequal := hsame asciiWord (fun _ => "") basicHeader ['x'] ['y'] [] 100
    ⟨by decide, List.forall_mem_singleton.mpr rfl⟩ ⟨by decide, List.forall_mem_singleton.mpr rfl⟩
  exact absurd hequal (by decide)

/-- No credential behind a header changes the output, whatever follows it and wherever the output is
cut, if and only if the scheme is `Bearer` and no earlier match reaches into the name. -/
theorem credential_hidden_iff (h : Header) :
    (∀ credential credential' after limit, IsCredential credential → IsCredential credential' →
      redactAndBound (compiled isWord toRfc3339) (h.text credential after) limit =
        redactAndBound (compiled isWord toRfc3339) (h.text credential' after) limit) ↔
      h.IsBearer ∧ h.Unshadowed := by
  constructor
  · intro hsame
    by_contra hother
    apply h.shown isWord hother
    have hopening : IsCredential "authorization:".toList :=
      ⟨by decide, fun c hc => by
        have hall : "authorization:".toList.all (fun c => !isWhitespace c) = true := rfl
        simpa using List.all_eq_true.mp hall c hc⟩
    have hletter : IsCredential "a".toList := ⟨by decide, fun c hc => by
      rw [List.mem_singleton.mp hc]
      rfl⟩
    apply redacted_of_redactAndBound isWord toRfc3339
    intro limit
    exact hsame _ _ _ limit hopening hletter
  · rintro ⟨hbearer, hfree⟩ credential credential' after limit hc hc'
    rw [Header.text, Header.text, redactAndBound_eq, redactAndBound_eq, redacted, redacted,
      h.replaceAll_bearer hbearer hfree hc, h.replaceAll_bearer hbearer hfree hc']

end PackageHarness.Redaction
