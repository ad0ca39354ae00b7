/-
# PackageHarness.Guarantees.OpenValues — values that reach into the lines behind them.

A value that ends in the beginning of an authorization header takes the first word of the lines behind
it. On a covered line it is gone from the output, but what is left of these lines tells it apart from
another one: by the number of line ends, or by the word that stands there.
-/
import Mathlib.Algebra.Order.BigOperators.Group.List
import PackageHarness.Analysis.Following
import PackageHarness.Guarantees.Credentials

namespace PackageHarness.Redaction

open Text Text.Regex

variable {b g r s t u v x y z : List Char} {c e : Char}

variable (isWord : Char → Bool)

/-- What the patterns make of a covered line, by what the first two leave of the value and of the
lines behind it. -/
theorem covered_residue (h : KeyedLine) (hcover : h.Covered isWord) :
    ∃ z, ∀ v y s, Opens v → residue isWord h.upTo v = y ++ s → (∀ c ∈ y, c ≠ '\n') → Follows s →
      applyLater isWord (authorizationPattern.replaceAll (h.upTo ++ v)) =
        privateKeyPattern.replaceAll (urlPattern.replaceAll (z ++ keyValuePattern.onward s)) := by
  have hedge := h.upTo_edge
  have hlead : Edge (lead isWord h.upTo) :=
    (hedge.meets_lead isWord (s := ['x']) ⟨'x', [], rfl, rfl⟩).edge
  obtain ⟨z, hz⟩ := covered_line hlead ((h.covered_lead isWord).mp hcover)
  refine ⟨z, ?_⟩
  intro v y s hv hresidue hy hs
  have hmeets := hedge.meets_lead isWord hv
  rw [hresidue] at hmeets
  show privateKeyPattern.replaceAll (urlPattern.replaceAll (keyValuePattern.replaceAll
    ((bearerPattern isWord).replaceAll (authorizationPattern.replaceAll _)))) = _
  rw [hedge.lead_residue isWord hv, hresidue, hz y s hy hs hmeets]

/-- Where no boundary line ends in the lines, they stand on their own in the output. -/
theorem covered_output (h : KeyedLine) (hcover : h.Covered isWord) :
    ∃ z, ∀ v y s, Opens v → residue isWord h.upTo v = y ++ s → (∀ c ∈ y, c ≠ '\n') → Follows s →
      ¬ BOUNDARY_END <:+: s → redacted isWord (h.upTo ++ v) =
        redactChars (z ++ urlPattern.onward (keyValuePattern.onward s)) := by
  obtain ⟨z, hz⟩ := covered_residue isWord h hcover
  refine ⟨privateKeyPattern.replaceAll (urlPattern.replaceAll z), ?_⟩
  intro v y s hv hresidue hy hs hfree
  have hkey := free_onward keyValue_foreign hfree hs
  have hs' := hs.onward keyValuePattern
  rw [redacted, hz v y s hv hresidue hy hs, applied_apart hs' (free_onward url_foreign hkey hs')]

/-! ## A value that ends in a header -/

theorem isValue_of_all (hopens : Opens s) (hline : s.all (fun c => c != '\n') = true) : IsValue s :=
  ⟨hopens, fun c hc => by simpa using List.all_eq_true.mp hline c hc⟩

/-- Closed: no match begins in it. -/
def shortValue : List Char := "x a".toList

/-- The first word behind it is the value of a header. -/
def headerValue : List Char := "x authorization:".toList

/-- The word `Bearer` goes with the first word behind it. -/
def bearerValue : List Char := "x authorization: bearer".toList

theorem shortValue_isValue : IsValue shortValue := isValue_of_all ⟨'x', _, rfl, rfl⟩ rfl

theorem headerValue_isValue : IsValue headerValue := isValue_of_all ⟨'x', _, rfl, rfl⟩ rfl

theorem bearerValue_isValue : IsValue bearerValue := isValue_of_all ⟨'x', _, rfl, rfl⟩ rfl

/-- What the first two patterns make of the lines behind a header whose value begins them. -/
def beyond (r : List Char) : List Char :=
  (bearerPattern isWord).replaceFrom 0 (some ']')
    (authorizationPattern.replaceFrom 0 none (valueSplit r).2)

theorem authorization_value (hb : ∀ c ∈ b, isWhitespace c = true) (hr : Opens r) (prev : Option Char) :
    authorizationPattern.replaceFrom 0 prev ("authorization:".toList ++ (b ++ r)) =
      "authorization:".toList ++ (b ++ ("[REDACTED]".toList ++
        authorizationPattern.replaceFrom 0 none (valueSplit r).2)) := by
  have hvalue := not_blank_of_opens hr fun _ hc => hc
  have hne : r ≠ [] := by
    obtain ⟨c, y, rfl, -⟩ := hr
    exact List.cons_ne_nil c y
  have hfirst : authorizationPattern.first prev ("authorization:".toList ++ (b ++ r)) =
      some ⟨"authorization:".toList ++ b, (valueSplit r).1, (valueSplit r).2⟩ := by
    have hspelled : spelled sameLetter AUTHORIZATION ("authorization:".toList ++ (b ++ r)) = true :=
      rfl
    rw [first_eq, headerAt, if_pos hspelled]
    show headerFrom AUTHORIZATION [] (':' :: (b ++ r)) = _
    rw [headerFrom, takeWhile_stop hb hvalue, dropWhile_stop hb hvalue, if_pos ⟨rfl, hne⟩]
    rfl
  rw [Rewrite.replaceFrom_found hfirst, Rewrite.replaceFrom_blind authorization_blind _ none]
  simp only [List.append_assoc]
  rfl

/-- No letter of a written header begins a bearer token. -/
theorem bearer_value (hb : ∀ c ∈ b, isWhitespace c = true) (prev : Option Char) (s : List Char) :
    (bearerPattern isWord).replaceFrom 0 prev
        ("authorization:".toList ++ (b ++ ("[REDACTED]".toList ++ s))) =
      "authorization:".toList ++ (b ++ ("[REDACTED]".toList ++
        (bearerPattern isWord).replaceFrom 0 (some ']') s)) := by
  have hidle : ∀ c ∈ "authorization:".toList ++ (b ++ "[REDACTED]".toList), ∀ prev s,
      (bearerPattern isWord).first prev (c :: s) = none := by
    have hall : ("authorization:".toList ++ "[REDACTED]".toList).all
        (fun c => !sameLetter 'b' c) = true := rfl
    intro c hc prev s
    apply bearer_idle
    by_cases hin : c ∈ b
    · exact not_b_of_blank (hb c hin)
    · have hmem : c ∈ "authorization:".toList ++ "[REDACTED]".toList := by
        simp only [List.mem_append] at hc ⊢
        tauto
      simpa using List.all_eq_true.mp hall c hmem
  have hlast : lastOf prev ("authorization:".toList ++ (b ++ "[REDACTED]".toList)) = some ']' := by
    have hsplit : "authorization:".toList ++ (b ++ "[REDACTED]".toList) =
        "authorization:".toList ++ (b ++ "[REDACTED".toList) ++ [']'] := by
      simp only [List.append_assoc]
      rfl
    rw [hsplit, lastOf_concat]
  obtain ⟨hwritten, hstop⟩ := Rewrite.written_idle hidle prev s
  have htext : ∀ s, "authorization:".toList ++ (b ++ ("[REDACTED]".toList ++ s)) =
      "authorization:".toList ++ (b ++ "[REDACTED]".toList) ++ s := fun s => by simp
  rw [htext, Rewrite.replaceFrom_append, hwritten, hstop, hlast, htext]

/-- The header takes the value of the lines behind it, and the lines are read on behind that. -/
theorem residue_header (hu : Edge u) (hb : ∀ c ∈ b, isWhitespace c = true) (hr : Opens r) :
    ∃ z, (∀ c ∈ z, c ≠ '\n') ∧ residue isWord u (headerValue ++ (b ++ r)) =
      z ++ (b ++ ("[REDACTED]".toList ++ beyond isWord r)) := by
  obtain ⟨z, hz, hresidue⟩ := residue_x isWord hu (s := "authorization:".toList ++ (b ++ r))
    ⟨'a', _, rfl, rfl⟩ (by
      intro hcolon
      cases hcolon)
  rw [authorization_value hb hr, bearer_value isWord hb] at hresidue
  refine ⟨z ++ ' ' :: "authorization:".toList, ?_, ?_⟩
  · have hall : ('x' :: ' ' :: "authorization:".toList).all (fun c => c != '\n') = true := rfl
    intro c hc
    have hmem : c ∈ 'x' :: ' ' :: "authorization:".toList := by
      rcases hz with rfl | rfl
      · exact List.mem_cons_of_mem 'x' hc
      · exact hc
    simpa using List.all_eq_true.mp hall c hmem
  · show residue isWord u ('x' :: ' ' :: ("authorization:".toList ++ (b ++ r))) = _
    rw [hresidue, beyond]
    simp

theorem valueSplit_suffix (r : List Char) : (valueSplit r).2 <:+ r := by
  rw [valueSplit]
  split
  · exact (List.dropWhile_suffix _).trans ((List.dropWhile_suffix _).trans (List.drop_suffix _ _))
  · exact List.dropWhile_suffix _

theorem free_beyond (hfree : ¬ BOUNDARY_END <:+: r) : ¬ BOUNDARY_END <:+: beyond isWord r := by
  intro hin
  have hlater := Rewrite.infix_of_replaceFrom authorization_foreign
    (Rewrite.infix_of_replaceFrom (bearer_foreign isWord) hin)
  exact hfree (hlater.trans (valueSplit_suffix r).isInfix)

theorem free_value (hb : ∀ c ∈ b, isWhitespace c = true) (hfree : ¬ BOUNDARY_END <:+: r) :
    ¬ BOUNDARY_END <:+: b ++ ("[REDACTED]".toList ++ beyond isWord r) := by
  intro hin
  rw [← List.append_assoc] at hin
  apply free_beyond isWord hfree
  refine Rewrite.infix_of_append (x := b ++ "[REDACTED]".toList) ?_ hin
  rw [List.mem_append, not_or]
  refine ⟨?_, by decide⟩
  intro hmem
  cases hb _ hmem

/-! ## Line ends -/

theorem count_lines_redacted (z s : List Char) :
    (redactChars (z ++ urlPattern.onward (keyValuePattern.onward s))).count '\n' =
      z.count '\n' + s.count '\n' := by
  have hsecret : ∀ p, looksSecret p = true → '\n' ∉ p := by
    intro p hp hmem
    cases no_blank_of_looksSecret hp _ hmem
  rw [count_redactChars hsecret (by decide), List.count_append, count_lines]

theorem follows_dropWhile (s : List Char) : Follows (s.dropWhile notNewline) := by
  cases hs : s.dropWhile notNewline with
  | nil => exact Or.inl rfl
  | cons c y =>
      have hc : notNewline c = false := dropWhile_ne_nil hs
      rw [notNewline, bne_eq_false_iff_eq] at hc
      exact Or.inr ⟨y, by rw [hc]⟩

theorem count_dropWhile (s : List Char) : (s.dropWhile notNewline).count '\n' = s.count '\n' := by
  have hnone : (s.takeWhile notNewline).count '\n' = 0 := by
    apply List.count_eq_zero_of_not_mem
    intro hmem
    cases List.mem_takeWhile_imp hmem
  nth_rewrite 2 [← List.takeWhile_append_dropWhile (p := notNewline) (l := s)]
  rw [List.count_append, hnone, Nat.zero_add]

/-- One value takes the line ends before the first word, the other one leaves them. -/
theorem told_apart_by_lines (h : KeyedLine) (hcover : h.Covered isWord)
    (hb : ∀ c ∈ b, isWhitespace c = true) (hr : Opens r) (hfree : ¬ BOUNDARY_END <:+: r)
    (hplain : (valueSplit r).2 = r.dropWhile notWhitespace) :
    redacted isWord (h.upTo ++ (bearerValue ++ ('\n' :: b ++ r))) ≠
      redacted isWord (h.upTo ++ (headerValue ++ ('\n' :: b ++ r))) := by
  obtain ⟨z, hz⟩ := covered_output isWord h hcover
  have hb' : ∀ c ∈ '\n' :: b, isWhitespace c = true := List.forall_mem_cons.mpr ⟨rfl, hb⟩
  obtain ⟨z₁, hz₁, hresidue₁⟩ := residue_header isWord h.upTo_edge (b := [' '])
    (r := "bearer".toList ++ ('\n' :: b ++ r)) (List.forall_mem_singleton.mpr rfl) ⟨'b', _, rfl, rfl⟩
  obtain ⟨z₂, hz₂, hresidue₂⟩ := residue_header isWord h.upTo_edge hb' hr
  have hbearer : Spells sameLetter BEARER "bearer".toList := spells_of_toLower rfl rfl
  have hsame : beyond isWord ("bearer".toList ++ ('\n' :: b ++ r)) = beyond isWord r := by
    rw [beyond, beyond, valueSplit_bearer hbearer (List.cons_ne_nil _ _) hb' hr, hplain]
  have hread : z₁ ++ ([' '] ++ ("[REDACTED]".toList ++ beyond isWord r)) =
      z₁ ++ " [REDACTED]".toList ++ (beyond isWord r).takeWhile notNewline ++
        (beyond isWord r).dropWhile notNewline := by
    rw [List.append_assoc _ ((beyond isWord r).takeWhile notNewline), List.takeWhile_append_dropWhile]
    simp
  have hline : ∀ c ∈ z₁ ++ " [REDACTED]".toList ++ (beyond isWord r).takeWhile notNewline,
      c ≠ '\n' := by
    have hall : " [REDACTED]".toList.all (fun c => c != '\n') = true := rfl
    simp only [List.forall_mem_append]
    refine ⟨⟨hz₁, fun c hc => ?_⟩, fun c hc => ?_⟩
    · simpa using List.all_eq_true.mp hall c hc
    · have hline := List.mem_takeWhile_imp hc
      exact bne_iff_ne.mp hline
  rw [hsame, hread] at hresidue₁
  have hfree₁ : ¬ BOUNDARY_END <:+: (beyond isWord r).dropWhile notNewline := fun hin =>
    free_beyond isWord hfree (hin.trans (List.dropWhile_suffix _).isInfix)
  have hfirst := hz _ _ _ (bearerValue_isValue.opens.append _) hresidue₁ hline
    (follows_dropWhile _) hfree₁
  have hsecond := hz _ _ _ (headerValue_isValue.opens.append _) hresidue₂ hz₂ (Or.inr ⟨_, rfl⟩)
    (free_value isWord hb' hfree)
  intro hequal
  have hcount := congrArg (List.count '\n') (hfirst.symm.trans (hequal.trans hsecond))
  rw [count_lines_redacted, count_lines_redacted, count_dropWhile, List.cons_append,
    List.count_cons_self, List.count_append, List.count_append] at hcount
  omega

/-! ## The first word -/

/-- No header begins in a word `Bearer` with a blank behind it. -/
theorem authorization_word (hg : Spells sameLetter BEARER g) (he : isWhitespace e = true)
    (prev : Option Char) (s : List Char) :
    authorizationPattern.replaceFrom 0 prev (g ++ e :: s) =
      g ++ e :: authorizationPattern.replaceFrom 0 (some e) s := by
  have hquiet : ∀ t, t ≠ [] → t <:+ g → ∀ prev,
      authorizationPattern.first prev (t ++ e :: s) = none := by
    intro t _ ht prev
    have hspelled : ¬ spelled sameLetter AUTHORIZATION (t ++ e :: s) = true := by
      intro hspelled
      have hthirteen : 13 ≤ t.length := by
        refine length_le_of_spelled no_blank_authorization ?_ hspelled
        intro c hc
        cases hc
        exact he
      have hsix : g.length = 6 := hg.length_eq.symm
      have hle := ht.length_le
      omega
    rw [first_eq, headerAt, if_neg hspelled]
  rw [Rewrite.replaceFrom_quiet hquiet,
    Rewrite.replaceFrom_none (authorization_plain.idle e _ s (Or.inl he))]

/-- As a bearer token it begins with the same word, and otherwise it stays. -/
theorem bearer_word (hg : Spells sameLetter BEARER g) (he : isWhitespace e = true)
    (prev : Option Char) (s : List Char) :
    ∃ g' e' y, (bearerPattern isWord).replaceFrom 0 prev (g ++ e :: s) = g' ++ e' :: y ∧
      Spells sameLetter BEARER g' ∧ isWhitespace e' = true := by
  cases hfound : (bearerPattern isWord).first prev (g ++ e :: s) with
  | some found =>
      obtain ⟨left, hleft, right, -, rfl⟩ := Rewrite.first_sound hfound
      have hkept : left.1 = [] := by rw [List.mem_singleton.mp hleft]
      obtain ⟨y, hy⟩ : ∃ y, (bearerPattern isWord).replaceFrom 0 prev (g ++ e :: s) =
          "Bearer".toList ++ ' ' :: y := by
        rw [Rewrite.replaceFrom_found hfound, hkept]
        exact ⟨_, rfl⟩
      exact ⟨_, ' ', y, hy, spells_of_toLower rfl rfl, rfl⟩
  | none =>
      refine ⟨g, e, (bearerPattern isWord).replaceFrom 0 (some e) s, ?_, hg, he⟩
      obtain ⟨c, y, rfl, -, hy⟩ := List.map_eq_cons_iff.mp (spells_iff.mp hg)
      -- Only the first letter of the word begins a match.
      have hletters : ∀ d ∈ y, sameLetter 'b' d = false := by
        have hall : "earer".toList.all (fun d => d != 'b') = true := rfl
        intro d hd
        have hrest : y.map fold = "earer".toList := hy
        have hmem : fold d ∈ "earer".toList := by
          rw [← hrest]
          exact List.mem_map_of_mem hd
        simpa [sameLetter] using List.all_eq_true.mp hall (fold d) hmem
      obtain ⟨hword, hend⟩ := Rewrite.written_idle (w := bearerPattern isWord) (u := y)
        (fun d hd prev s => bearer_idle isWord (hletters d hd) prev s) (some c) (e :: s)
      rw [List.cons_append] at hfound ⊢
      rw [Rewrite.replaceFrom_none hfound, Rewrite.replaceFrom_append, hword, hend,
        Rewrite.replaceFrom_none (bearer_idle isWord (not_b_of_blank he) _ s)]
      rfl

/-- A word `Bearer` at the start of the lines stays a word of the same letters. -/
theorem onward_word (hb : ∀ c ∈ b, isWhitespace c = true) (hg : Spells sameLetter BEARER g)
    (he : isWhitespace e = true) (s : List Char) :
    ∃ g' e' y, (bearerPattern isWord).onward
        (authorizationPattern.onward ('\n' :: (b ++ (g ++ e :: s)))) =
      '\n' :: (b ++ (g' ++ e' :: y)) ∧ Spells sameLetter BEARER g' ∧ isWhitespace e' = true := by
  obtain ⟨hwritten, hstop⟩ := Rewrite.written_idle (w := authorizationPattern) (u := b)
    (fun c hc prev s => authorization_plain.idle c prev s (Or.inl (hb c hc))) (some '\n') (g ++ e :: s)
  have hfirst : authorizationPattern.onward ('\n' :: (b ++ (g ++ e :: s))) =
      '\n' :: (b ++ (g ++ e :: authorizationPattern.replaceFrom 0 (some e) s)) := by
    rw [Rewrite.onward, Rewrite.replaceFrom_append, hwritten, hstop, authorization_word hg he]
  obtain ⟨hwritten', hstop'⟩ := Rewrite.written_idle (w := bearerPattern isWord) (u := b)
    (fun c hc prev s => bearer_idle isWord (not_b_of_blank (hb c hc)) prev s) (some '\n')
    (g ++ e :: authorizationPattern.replaceFrom 0 (some e) s)
  obtain ⟨g', e', y, hword, hg', he'⟩ := bearer_word isWord hg he (lastOf (some '\n') b)
    (authorizationPattern.replaceFrom 0 (some e) s)
  refine ⟨g', e', y, ?_, hg', he'⟩
  rw [hfirst, Rewrite.onward, Rewrite.replaceFrom_append, hwritten', hstop', hword]

theorem Opener.length_le {o : List Char} (ho : Opener o) : 6 ≤ o.length := by
  have hname : AUTHORIZATION.length = 13 := rfl
  have hscheme : BEARER.length = 6 := rfl
  cases ho with
  | name h _ | colon h _ _ | scheme h _ =>
      have hlength := h.length_eq
      rw [List.length_append]
      omega

theorem isClosed_of_short (h : v.length < 6) : IsClosed v := by
  intro o ho hopener
  have hshort := ho.length_le
  have hlong := hopener.length_le
  omega

theorem isStill_of_blank (hc : isWhitespace c = true) : IsStill c := by
  constructor
  · cases hsep : isSeparator c with
    | false => rfl
    | true =>
        rw [not_blank_of_isMark (Bool.or_eq_true_iff.mpr (Or.inl hsep))] at hc
        cases hc
  · rw [sameLetter, fold_of_isWhitespace hc, beq_eq_false_iff_ne]
    rintro rfl
    cases hc

theorem isStill_of_bearer (hg : Spells sameLetter BEARER g) : ∀ c ∈ g, IsStill c := by
  have hall : BEARER.all (fun d => !isSeparator d && d != 'h') = true := rfl
  intro c hc
  have hmem : fold c ∈ BEARER := by
    rw [← spells_iff.mp hg]
    exact List.mem_map_of_mem hc
  have hfold := List.all_eq_true.mp hall (fold c) hmem
  rw [Bool.and_eq_true, Bool.not_eq_true', bne_iff_ne] at hfold
  refine ⟨?_, beq_eq_false_iff_ne.mpr hfold.2⟩
  cases hsep : isSeparator c with
  | false => rfl
  | true =>
      rw [(fold_of_isMark (Bool.or_eq_true_iff.mpr (Or.inl hsep))).1, hsep] at hfold
      cases hfold.1

/-- What stands behind a blank and does not begin with the mark differs from what does. -/
theorem redactChars_mark_ne (hb : ∀ c ∈ b, isWhitespace c = true) (hg : Spells sameLetter BEARER g)
    (he : isWhitespace e = true) (z x y : List Char) :
    redactChars (z ++ '\n' :: (b ++ (g ++ e :: x))) ≠
      redactChars (z ++ '\n' :: (b ++ ("[REDACTED]".toList ++ y))) := by
  have hnewline : isWhitespace '\n' = true := rfl
  rw [redactChars_append hnewline z (b ++ (g ++ e :: x)),
    redactChars_append hnewline z (b ++ ("[REDACTED]".toList ++ y)), redactChars_blanks hb,
    redactChars_blanks hb, Ne, List.append_cancel_left_eq, List.append_cancel_left_eq]
  have hword := no_blank_of_spells no_blank_bearer hg
  have hlength : g.length = 6 := hg.length_eq.symm
  have hshort : looksSecret g = false := by
    cases hsecret : looksSecret g with
    | false => rfl
    | true =>
        -- Six characters have no forty-eight bytes.
        have hlong := ((looksSecret_iff g).mp hsecret).1
        have hbytes : ∀ n ∈ g.map Char.utf8Size, n ≤ 4 := by
          intro n hn
          obtain ⟨c, -, rfl⟩ := List.mem_map.mp hn
          exact c.utf8Size_le_four
        have hsum : (g.map Char.utf8Size).sum ≤ (g.map Char.utf8Size).length * 4 :=
          List.sum_le_card_nsmul _ _ hbytes
        rw [List.length_map, hlength] at hsum
        omega
  have hmark : (redactChars ("[REDACTED]".toList ++ y)).head? = some '[' := by
    rcases head?_redactChars (c := '[') rfl ("REDACTED]".toList ++ y) with hown | hclose
    · exact hown
    · exact hclose
  obtain ⟨c, g, rfl, hc, -⟩ := List.map_eq_cons_iff.mp (spells_iff.mp hg)
  have hend : ∀ d ∈ (e :: x).head?, isWhitespace d = true := by
    intro d hd
    cases hd
    exact he
  intro hequal
  rw [← hequal, redactChars_word (List.cons_ne_nil c g) hword hend,
    redactToken_of_looksSecret_false hshort] at hmark
  cases hmark
  cases hc

/-- One value takes the word, the other one leaves it. -/
theorem told_apart_by_word (h : KeyedLine) (hcover : h.Covered isWord)
    (hb : ∀ c ∈ b, isWhitespace c = true) (hg : Spells sameLetter BEARER g) (he : isWhitespace e = true)
    (hfree : ¬ BOUNDARY_END <:+: '\n' :: b ++ (g ++ e :: s)) :
    redacted isWord (h.upTo ++ (shortValue ++ ('\n' :: b ++ (g ++ e :: s)))) ≠
      redacted isWord (h.upTo ++ (headerValue ++ ('\n' :: b ++ (g ++ e :: s)))) := by
  obtain ⟨z, hz⟩ := covered_output isWord h hcover
  have hb' : ∀ c ∈ '\n' :: b, isWhitespace c = true := List.forall_mem_cons.mpr ⟨rfl, hb⟩
  have hfollows : Follows ('\n' :: b ++ (g ++ e :: s)) := Or.inr ⟨_, rfl⟩
  have hopens : Opens (g ++ e :: s) := by
    have hword := no_blank_of_spells no_blank_bearer hg
    obtain ⟨c, y, rfl, -, -⟩ := List.map_eq_cons_iff.mp (spells_iff.mp hg)
    exact ⟨c, _, rfl, hword c List.mem_cons_self⟩
  have hclosed : IsClosed shortValue := isClosed_of_short (by decide)
  obtain ⟨y₁, hy₁, hresidue₁⟩ := residue_line isWord h.upTo_edge shortValue_isValue (Or.inr hclosed)
    hfollows
  obtain ⟨y₂, hy₂, hresidue₂⟩ := residue_header isWord h.upTo_edge hb' hopens
  have hfree₁ := free_onward (bearer_foreign isWord) (free_onward authorization_foreign hfree hfollows)
    (hfollows.onward authorizationPattern)
  have hfirst := hz _ _ _ (shortValue_isValue.opens.append _) hresidue₁ hy₁
    ((hfollows.onward authorizationPattern).onward (bearerPattern isWord)) hfree₁
  have hbehind : ¬ BOUNDARY_END <:+: g ++ e :: s := fun hin =>
    hfree (hin.trans (List.suffix_append _ _).isInfix)
  have hsecond := hz _ _ _ (headerValue_isValue.opens.append _) hresidue₂ hy₂ (Or.inr ⟨_, rfl⟩)
    (free_value isWord hb' hbehind)
  obtain ⟨g', e', y, hword, hg', he'⟩ := onward_word isWord hb hg he s
  have hstill : ∀ c ∈ b ++ (g' ++ [e']), IsStill c := by
    simp only [List.forall_mem_append, List.forall_mem_singleton]
    exact ⟨fun c hc => isStill_of_blank (hb c hc), isStill_of_bearer hg', isStill_of_blank he'⟩
  have hstill' : ∀ c ∈ b ++ "[REDACTED]".toList, IsStill c := by
    have hall : "[REDACTED]".toList.all (fun c => !isSeparator c && !sameLetter 'h' c) = true := rfl
    refine List.forall_mem_append.mpr ⟨fun c hc => isStill_of_blank (hb c hc), fun c hc => ?_⟩
    simpa [IsStill] using List.all_eq_true.mp hall c hc
  obtain ⟨x₁, hx₁⟩ := lines_prefix hstill y
  obtain ⟨x₂, hx₂⟩ := lines_prefix hstill' (beyond isWord (g ++ e :: s))
  simp only [List.append_assoc, List.singleton_append] at hx₁ hx₂
  have hlines : (bearerPattern isWord).onward
      (authorizationPattern.onward ('\n' :: b ++ (g ++ e :: s))) = '\n' :: (b ++ (g' ++ e' :: y)) := hword
  have hlines' : urlPattern.onward (keyValuePattern.onward
      ('\n' :: b ++ ("[REDACTED]".toList ++ beyond isWord (g ++ e :: s)))) =
        '\n' :: (b ++ ("[REDACTED]".toList ++ x₂)) := hx₂
  rw [hfirst, hsecond, hlines, hx₁, hlines']
  exact redactChars_mark_ne hb hg' he' z x₁ x₂

/-! ## Lines that hide every value -/

/-- The value of a header is one word, or it begins with `Bearer` and a blank. -/
theorem valueSplit_cases (r : List Char) : (valueSplit r).2 = r.dropWhile notWhitespace ∨
    ∃ g e s, r = g ++ e :: s ∧ Spells sameLetter BEARER g ∧ isWhitespace e = true := by
  rw [valueSplit]
  split
  · next hbearer =>
      obtain ⟨hspelled, hblanks, -⟩ := hbearer
      obtain ⟨g, rest, rfl, hg⟩ := spelled_iff.mp hspelled
      have hlength : g.length = 6 := hg.length_eq.symm
      rw [List.drop_left' hlength] at hblanks
      cases rest with
      | nil => exact absurd rfl hblanks
      | cons e s =>
          cases he : isWhitespace e with
          | true => exact Or.inr ⟨g, e, s, rfl, hg, he⟩
          | false => exact absurd (List.takeWhile_cons_of_neg (by simp [he])) hblanks
  · exact Or.inl rfl

/-- Where all values are hidden, only blanks follow the line. -/
theorem rest_blank {rest : List Char} (h : KeyedLine) (hcover : h.Covered isWord) (hrest : Follows rest)
    (hfree : ¬ BOUNDARY_END <:+: rest)
    (hsame : ∀ v v', IsValue v → IsValue v' →
      redacted isWord (h.upTo ++ (v ++ rest)) = redacted isWord (h.upTo ++ (v' ++ rest))) :
    ∀ c ∈ rest, isWhitespace c = true := by
  rcases blank_start rest with hblank | ⟨b, r, rfl, hb, hr⟩
  · exact hblank
  · rcases hrest with hnil | ⟨z, hz⟩
    · obtain ⟨-, hnil⟩ := List.append_eq_nil_iff.mp hnil
      obtain ⟨c, y, rfl, -⟩ := hr
      cases hnil
    · cases b with
      | nil =>
          obtain ⟨c, y, rfl, hc⟩ := hr
          rw [(List.cons_eq_cons.mp hz).1] at hc
          cases hc
      | cons c b =>
          obtain ⟨rfl, -⟩ := List.cons_eq_cons.mp hz
          have hb' : ∀ c ∈ b, isWhitespace c = true := fun c hc => hb c (List.mem_cons_of_mem _ hc)
          rcases valueSplit_cases r with hplain | ⟨g, e, s, rfl, hg, he⟩
          · have hbehind : ¬ BOUNDARY_END <:+: r := fun hin =>
              hfree (hin.trans (List.suffix_append _ _).isInfix)
            exact absurd (hsame _ _ bearerValue_isValue headerValue_isValue)
              (told_apart_by_lines isWord h hcover hb' hr hbehind hplain)
          · exact absurd (hsame _ _ shortValue_isValue headerValue_isValue)
              (told_apart_by_word isWord h hcover hb' hg he hfree)

end PackageHarness.Redaction
