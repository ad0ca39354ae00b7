/-
# PackageHarness.Analysis.LineEnds — matches that pass the end of a line.

The blanks of the header pattern and of the bearer pattern may be line ends. A line that ends in the
name of a header, in its colon or in `Bearer` opens a match that goes on in the next line. On every
other line these patterns end with it, so what stands behind a value is read on its own.
-/
import PackageHarness.Analysis.KeyValues

namespace PackageHarness.Redaction

open Text Text.Regex

variable {c d e : Char} {q b r s t u v w x y z : List Char} {prev : Option Char} {found : Found}

/-! ## What opens a match that goes on -/

/-- The end of a line that a pattern continues on the next one. -/
inductive Opener : List Char → Prop
  | name {name blanks : List Char} : Spells sameLetter AUTHORIZATION name →
      (∀ c ∈ blanks, isWhitespace c = true) → Opener (name ++ blanks)
  | colon {name beforeColon blanks : List Char} : Spells sameLetter AUTHORIZATION name →
      (∀ c ∈ beforeColon, isWhitespace c = true) → (∀ c ∈ blanks, isWhitespace c = true) →
      Opener (name ++ (beforeColon ++ ':' :: blanks))
  | scheme {scheme blanks : List Char} : Spells sameLetter BEARER scheme →
      (∀ c ∈ blanks, isWhitespace c = true) → Opener (scheme ++ blanks)

/-- A text is blank, or it has a last character that is not. -/
theorem blank_split (s : List Char) : (∀ c ∈ s, isWhitespace c = true) ∨
    ∃ y e b, s = y ++ e :: b ∧ isWhitespace e = false ∧ ∀ c ∈ b, isWhitespace c = true := by
  induction s with
  | nil => exact Or.inl fun c hc => absurd hc List.not_mem_nil
  | cons c s ih =>
      rcases ih with hall | ⟨y, e, b, rfl, he, hb⟩
      · cases hc : isWhitespace c with
        | true => exact Or.inl (List.forall_mem_cons.mpr ⟨hc, hall⟩)
        | false => exact Or.inr ⟨[], c, s, rfl, hc, hall⟩
      · exact Or.inr ⟨c :: y, e, b, rfl, he, hb⟩

/-- A text is blank, or it opens behind its first blanks. -/
theorem blank_start (s : List Char) : (∀ c ∈ s, isWhitespace c = true) ∨
    ∃ b y, s = b ++ y ∧ (∀ c ∈ b, isWhitespace c = true) ∧ Opens y := by
  induction s with
  | nil => exact Or.inl fun c hc => absurd hc List.not_mem_nil
  | cons c s ih =>
      cases hc : isWhitespace c with
      | false => exact Or.inr ⟨[], c :: s, rfl, fun d hd => absurd hd List.not_mem_nil, c, s, rfl, hc⟩
      | true =>
          rcases ih with hall | ⟨b, y, rfl, hb, hy⟩
          · exact Or.inl (List.forall_mem_cons.mpr ⟨hc, hall⟩)
          · exact Or.inr ⟨c :: b, y, rfl, List.forall_mem_cons.mpr ⟨hc, hb⟩, hy⟩

/-- The value of a header passes a blank only behind `Bearer`. -/
theorem valueSplit_cross (hv : Opens v) (hs : ∀ c ∈ s.head?, isWhitespace c = true)
    (hlong : v.length < (valueSplit (v ++ s)).1.length) : ∃ o, o <:+ v ∧ Opener o := by
  rcases blank_split v with hall | ⟨y, e, b, rfl, he, hb⟩
  · obtain ⟨c, y, rfl, hc⟩ := hv
    rw [hall c List.mem_cons_self] at hc
    cases hc
  · have hassoc : y ++ e :: b ++ s = y ++ e :: (b ++ s) := by simp
    have hhead : ∀ c ∈ (b ++ s).head?, isWhitespace c = true := by
      cases b with
      | nil => exact hs
      | cons d b =>
          intro c hc
          cases hc
          exact hb d List.mem_cons_self
    rw [hassoc] at hlong
    rcases valueSplit_stays he hhead y with hshort | hbearer
    · rw [List.length_append, List.length_cons] at hlong
      omega
    · refine ⟨y ++ [e] ++ b, ?_, Opener.scheme hbearer hb⟩
      rw [List.append_assoc]
      exact List.suffix_refl _

/-- A match of the header pattern that passes a blank begins with an opener. -/
theorem header_cross (hs : ∀ c ∈ s.head?, isWhitespace c = true)
    (hfound : headerAt (t ++ s) = some found) (hlong : t.length < found.size) :
    ∃ o, o <:+ t ∧ Opener o := by
  rw [headerAt] at hfound
  split at hfound
  case isFalse => cases hfound
  case isTrue hspelled =>
    have hthirteen : 13 ≤ t.length := length_le_of_spelled no_blank_authorization hs hspelled
    obtain ⟨name, rest, rfl, hlength⟩ : ∃ name rest, t = name ++ rest ∧ name.length = 13 :=
      ⟨t.take 13, t.drop 13, (List.take_append_drop 13 t).symm, by
        rw [List.length_take]
        exact Nat.min_eq_left hthirteen⟩
    rw [List.append_assoc] at hspelled hfound
    have hname : Spells sameLetter AUTHORIZATION name := spells_of_spelled hlength hspelled
    rw [List.take_left' hlength, List.drop_left' hlength] at hfound
    rcases blank_start rest with hall | ⟨b₁, y, rfl, hb₁, d, y', rfl, hd⟩
    · exact ⟨name ++ rest, List.suffix_refl _, Opener.name hname hall⟩
    · have hstop : ∀ c ∈ (d :: (y' ++ s)).head?, isWhitespace c = false := by
        intro c hc
        cases hc
        exact hd
      have hassoc : b₁ ++ d :: y' ++ s = b₁ ++ d :: (y' ++ s) := by simp
      rw [hassoc, takeWhile_stop hb₁ hstop, dropWhile_stop hb₁ hstop, headerFrom] at hfound
      split at hfound
      case isFalse => cases hfound
      case isTrue hcolon =>
        obtain ⟨rfl, -⟩ := hcolon
        rcases blank_start y' with hall | ⟨b₂, v, rfl, hb₂, hv⟩
        · exact ⟨_, List.suffix_refl _, Opener.colon hname hb₁ hall⟩
        · have hopens : Opens (v ++ s) := by
            obtain ⟨c, y, rfl, hc⟩ := hv
            exact ⟨c, y ++ s, rfl, hc⟩
          have hvalue : ∀ c ∈ (v ++ s).head?, isWhitespace c = false := by
            obtain ⟨c, y, heq, hc⟩ := hopens
            rw [heq]
            intro d hd
            cases hd
            exact hc
          rw [List.append_assoc, takeWhile_stop hb₂ hvalue, dropWhile_stop hb₂ hvalue] at hfound
          cases hfound
          have hcross : v.length < (valueSplit (v ++ s)).1.length := by
            simp only [Found.size, List.length_append, List.length_cons] at hlong
            omega
          obtain ⟨o, ho, hopener⟩ := valueSplit_cross hv hs hcross
          refine ⟨o, ho.trans ⟨name ++ (b₁ ++ ':' :: b₂), by simp⟩, hopener⟩

/-- A character that is in the middle of three parts only. -/
theorem prefix_of_middle {y₁ y₂ y₃ rest : List Char} (heq : t ++ d :: s = y₁ ++ (y₂ ++ (y₃ ++ rest)))
    (h₁ : d ∉ y₁) (h₃ : d ∉ y₃) (hlong : t.length < y₁.length + y₂.length + y₃.length) :
    ∃ b, t = y₁ ++ b ∧ b <+: y₂ := by
  rcases List.append_eq_append_iff.mp heq with ⟨z, hz, hd⟩ | ⟨z, hz, hd⟩
  · cases z with
    | nil =>
        rw [List.append_nil] at hz
        exact ⟨[], by rw [hz, List.append_nil], List.nil_prefix⟩
    | cons c z =>
        obtain ⟨rfl, -⟩ := List.cons_eq_cons.mp hd
        rw [hz] at h₁
        exact absurd (by simp) h₁
  · refine ⟨z, hz, ?_⟩
    rcases List.append_eq_append_iff.mp hd with ⟨y, hy, hrest⟩ | ⟨y, hy, -⟩
    · -- The character would be in the last part.
      have hbegins : y ++ [d] <+: y₃ := by
        have hwhole : y ++ [d] <+: y₃ ++ rest := by
          rw [hrest]
          exact ⟨s, by simp⟩
        apply List.prefix_of_prefix_length_le hwhole (List.prefix_append y₃ rest)
        rw [hz, hy] at hlong
        simp only [List.length_append, List.length_singleton] at hlong ⊢
        omega
      exact absurd (hbegins.subset (by simp)) h₃
    · exact ⟨y, hy.symm⟩

/-- A match of the bearer pattern that passes a line end begins with the word and blanks. -/
theorem bearer_cross (isWord : Char → Bool)
    (hfound : (bearerPattern isWord).first prev (t ++ '\n' :: s) = some found)
    (hlong : t.length < found.size) : Opener t := by
  have hsplit := Rewrite.first_split hfound
  obtain ⟨left, hleft, right, hright, rfl⟩ := Rewrite.first_sound hfound
  obtain ⟨start, hstart, worded, hworded, rfl⟩ := mem_seq.mp hright
  obtain ⟨word, hword, spaced, hspaced, rfl⟩ := mem_seq.mp hworded
  obtain ⟨blanks, hblanks, token, htoken, rfl⟩ := mem_seq.mp hspaced
  have hnothing : left.1 = [] := by rw [List.mem_singleton.mp hleft]
  have hplace : start.1 = [] := by
    rw [runs] at hstart
    split at hstart
    · rw [List.mem_singleton.mp hstart]
    · cases hstart
  have hspells := (mem_runs_spell hword).2
  have hblank := of_mem_plus hblanks
  have htokens := of_mem_plus htoken
  have hno : '\n' ∉ word.1 := by
    intro hmem
    have hfalse := no_blank_of_spells no_blank_bearer hspells '\n' hmem
    cases hfalse
  have hno' : '\n' ∉ token.1 := by
    intro hmem
    have hfalse := htokens '\n' hmem
    rw [isTokenChar_of_isWhitespace rfl] at hfalse
    cases hfalse
  have htext : t ++ '\n' :: s = word.1 ++ (blanks.1 ++ (token.1 ++ token.2)) := by
    rw [hsplit]
    show left.1 ++ (start.1 ++ (word.1 ++ (blanks.1 ++ token.1))) ++ token.2 = _
    rw [hnothing, hplace]
    simp
  have hsize : t.length < word.1.length + blanks.1.length + token.1.length := by
    have hparts : t.length < left.1.length + (start.1 ++ (word.1 ++ (blanks.1 ++ token.1))).length :=
      hlong
    rw [hnothing, hplace] at hparts
    simp only [List.length_append, List.length_nil] at hparts
    omega
  obtain ⟨b, rfl, hb⟩ := prefix_of_middle htext hno hno' hsize
  exact Opener.scheme hspells fun c hc => hblank c (hb.subset hc)

theorem mark_not_mem (hx : ∀ c ∈ x, c.isAlpha = true) (hy : Spells sameLetter x y)
    (he : isMark e = true) : e ∉ y := by
  intro hmem
  obtain ⟨hfold, halpha⟩ := fold_of_isMark he
  have hin : e ∈ x := by
    rw [← spells_iff.mp hy, ← hfold]
    exact List.mem_map_of_mem hmem
  rw [hx e hin] at halpha
  cases halpha

theorem mark_not_mem_blanks (hb : ∀ c ∈ b, isWhitespace c = true) (he : isMark e = true) : e ∉ b := by
  intro hmem
  have hblank := hb e hmem
  rw [not_blank_of_isMark he] at hblank
  cases hblank

theorem Opener.opens {o : List Char} (ho : Opener o) : Opens o := by
  have hword : ∀ x y z, x ≠ [] → (∀ c ∈ x, isWhitespace c = false) → Spells sameLetter x y →
      Opens (y ++ z) := by
    intro x y z hne hx hy
    have hno := no_blank_of_spells hx hy
    cases hy with
    | nil => exact absurd rfl hne
    | cons hd hrest => exact ⟨_, _, rfl, hno _ List.mem_cons_self⟩
  cases ho with
  | name hname _ => exact hword _ _ _ authorization_ne_nil no_blank_authorization hname
  | colon hname _ _ => exact hword _ _ _ authorization_ne_nil no_blank_authorization hname
  | scheme hscheme _ => exact hword _ _ _ bearer_ne_nil no_blank_bearer hscheme

/-- Behind a mark an opener has only blanks. -/
theorem Opener.blank_of_mark {o : List Char} (ho : Opener o) (he : isMark e = true)
    (heq : o = q ++ e :: y) : ∀ c ∈ y, isWhitespace c = true := by
  have hmem : e ∈ o := by
    rw [heq]
    simp
  cases ho with
  | name hname hb =>
      rcases List.mem_append.mp hmem with hin | hin
      · exact absurd hin (mark_not_mem alpha_authorization hname he)
      · exact absurd hin (mark_not_mem_blanks hb he)
  | scheme hscheme hb =>
      rcases List.mem_append.mp hmem with hin | hin
      · exact absurd hin (mark_not_mem alpha_bearer hscheme he)
      · exact absurd hin (mark_not_mem_blanks hb he)
  | @colon name b₁ b₂ hname hb₁ hb₂ =>
      have hbefore : e ∉ name ++ b₁ := by
        rw [List.mem_append, not_or]
        exact ⟨mark_not_mem alpha_authorization hname he, mark_not_mem_blanks hb₁ he⟩
      rw [← List.append_assoc] at heq
      rcases List.append_eq_append_iff.mp heq with ⟨z, -, hz⟩ | ⟨z, hz, hrest⟩
      · cases z with
        | nil =>
            rw [← (List.cons_eq_cons.mp hz).2]
            exact hb₂
        | cons d z =>
            rw [(List.cons_eq_cons.mp hz).2] at hb₂
            exact absurd (by simp) (mark_not_mem_blanks hb₂ he)
      · cases z with
        | nil =>
            rw [(List.cons_eq_cons.mp hrest).2]
            exact hb₂
        | cons d z =>
            rw [hz, ← (List.cons_eq_cons.mp hrest).1] at hbefore
            exact absurd (by simp) hbefore

/-- An opener at the end of a text behind an edge stands behind the edge. -/
theorem Opener.behind_edge {o : List Char} (ho : Opener o) (hu : Edge u) (hv : Opens v)
    (hsuffix : o <:+ u ++ v) : o <:+ v := by
  obtain ⟨p, hp⟩ := hsuffix
  rcases List.append_eq_append_iff.mp hp with ⟨y, rfl, rfl⟩ | ⟨y, -, hy⟩
  · rcases List.eq_nil_or_concat y with rfl | ⟨y', d, hy⟩
    · exact List.suffix_refl _
    · rcases hu.suffix with ⟨q, e, b, rfl, he, -⟩ | hblank
      · -- The value stands behind the mark of the edge.
        obtain ⟨c, z, rfl, hc⟩ := hv
        have hbehind := ho.blank_of_mark he (by rw [List.append_assoc, List.cons_append]) c (by simp)
        rw [hc] at hbehind
        cases hbehind
      · obtain ⟨c, z, hopens, hc⟩ := ho.opens
        have hne : y ≠ [] := by
          rw [hy, List.concat_eq_append]
          simp
        obtain ⟨d, y'', rfl⟩ := List.exists_cons_of_ne_nil hne
        obtain ⟨rfl, -⟩ := List.cons_eq_cons.mp hopens
        rw [(hblank d List.mem_cons_self).1] at hc
        cases hc
  · exact ⟨y, hy.symm⟩

/-- No opener has the bracket of a replacement. -/
theorem Opener.no_bracket {o : List Char} (ho : Opener o) : ']' ∉ o := by
  cases ho with
  | name hname hb =>
      rw [List.mem_append, not_or]
      exact ⟨mark_not_mem alpha_authorization hname rfl, mark_not_mem_blanks hb rfl⟩
  | colon hname hb₁ hb₂ =>
      rw [List.mem_append, List.mem_append, List.mem_cons, not_or, not_or, not_or]
      exact ⟨mark_not_mem alpha_authorization hname rfl, mark_not_mem_blanks hb₁ rfl, by decide,
        mark_not_mem_blanks hb₂ rfl⟩
  | scheme hscheme hb =>
      rw [List.mem_append, not_or]
      exact ⟨mark_not_mem alpha_bearer hscheme rfl, mark_not_mem_blanks hb rfl⟩

/-! ## A line that is read on its own -/

/-- A text in one line that opens with a character that is no blank. -/
structure IsValue (v : List Char) : Prop where
  opens : Opens v
  line : ∀ c ∈ v, c ≠ '\n'

/-- A value that opens no match that goes on in the next line. -/
def IsClosed (v : List Char) : Prop := ∀ o, o <:+ v → ¬ Opener o

/-- What follows a line: nothing, or a line end. -/
def Follows (s : List Char) : Prop := s = [] ∨ ∃ z, s = '\n' :: z

theorem Follows.blank (h : Follows s) : ∀ c ∈ s.head?, isWhitespace c = true ∧ c = '\n' := by
  rcases h with rfl | ⟨z, rfl⟩
  · intro c hc
    cases hc
  · intro c hc
    cases hc
    exact ⟨rfl, rfl⟩

/-- A match of either pattern ends with a character that is no blank, so it takes nothing of a text of
blanks. -/
theorem overrun_blank {w : Rewrite} (hw : EndsIn notWhitespace w.rest)
    (hs : ∀ c ∈ s, isWhitespace c = true) (u : List Char) : w.overrun 0 none u s = 0 := by
  apply Nat.eq_zero_of_le_zero
  apply Rewrite.overrun_le (Nat.zero_le _)
  intro prev t _ _ found hfound
  apply Rewrite.size_le_of_endsIn hw _ hfound
  intro c hc
  rw [notWhitespace, hs c hc]
  rfl

theorem onward_blank {w : Rewrite} (hw : EndsIn notWhitespace w.rest)
    (hs : ∀ c ∈ s, isWhitespace c = true) : w.onward s = s := by
  cases s with
  | nil => rfl
  | cons c s =>
      rw [Rewrite.onward, Rewrite.replaceFrom_of_endsIn hw]
      intro d hd
      rw [notWhitespace, hs d (List.mem_cons_of_mem c hd)]
      rfl

theorem authorization_ends : EndsIn notWhitespace authorizationPattern.rest :=
  endsIn_seq (endsIn_plus notWhitespace) _

theorem bearer_ends (isWord : Char → Bool) : EndsIn notWhitespace (bearerPattern isWord).rest := by
  intro prev s run h
  obtain ⟨x, c, hx, hc⟩ := bearer_endsIn isWord prev s run h
  rw [isEnding, Bool.and_eq_true] at hc
  exact ⟨x, c, hx, hc.1⟩

theorem overrun_authorization (hu : Edge u) (hv : Opens v)
    (hclosed : (∀ c ∈ s, isWhitespace c = true) ∨ IsClosed v) (hs : Follows s) :
    authorizationPattern.overrun 0 none (u ++ v) s = 0 := by
  rcases hclosed with hblank | hclosed
  · exact overrun_blank authorization_ends hblank _
  · apply Nat.eq_zero_of_le_zero
    apply Rewrite.overrun_le (Nat.zero_le _)
    intro prev t hne hsuffix found hfound
    rw [first_eq] at hfound
    by_contra hlong
    obtain ⟨o, ho, hopener⟩ := header_cross (fun c hc => (hs.blank c hc).1) hfound (by omega)
    exact hclosed o (hopener.behind_edge hu hv (ho.trans hsuffix)) hopener

/-- What a pattern makes of a line behind an edge, and of what follows it. -/
theorem Plain.line {w : Rewrite} (hw : Plain w) (hmark : '\n' ∉ w.replacement)
    (hline : ∀ c ∈ v, c ≠ '\n') (hs : Follows s) (hstop : w.overrun 0 none (u ++ v) s = 0) :
    ∃ y, w.written 0 none (u ++ v) s = w.written 0 none u (v ++ s) ++ y ∧ (∀ c ∈ y, c ≠ '\n') ∧
      w.replaceFrom (w.overrun 0 none u (v ++ s)) (lastOf none u) (v ++ s) = y ++ w.onward s := by
  rw [Rewrite.overrun_append] at hstop
  refine ⟨_, Rewrite.written_append w 0 none u v s, ?_, ?_⟩
  · intro c hc
    have hskip : w.overrun 0 none u (v ++ s) ≤ v.length := by
      by_contra hlong
      have hover := Rewrite.overrun_of_length_le w (lastOf none u) v s (Nat.le_of_not_le hlong)
      omega
    rcases Rewrite.mem_written hskip hstop hc with hown | hnew
    · exact hline c hown
    · rintro rfl
      exact hmark hnew
  · rw [Rewrite.replaceFrom_append, hstop, Rewrite.replaceFrom_onward]
    intro c hc
    obtain ⟨z, hz⟩ := List.head?_eq_some_iff.mp hc
    rw [hz]
    exact hw.idle c _ z (Or.inl (hs.blank c hc).1)

theorem Follows.onward (w : Rewrite) (hs : Follows s) : Follows (w.onward s) := by
  rcases hs with rfl | ⟨z, rfl⟩
  · exact Or.inl rfl
  · exact Or.inr ⟨_, rfl⟩

variable (isWord : Char → Bool)

theorem overrun_bearer (hu : Edge u) (hv : Opens v)
    (hclosed : (∀ c ∈ r, isWhitespace c = true) ∨ IsClosed v)
    (hsuffix : y <:+ authorizationPattern.written 0 none (u ++ v) s) (hr : Follows r) :
    (bearerPattern isWord).overrun 0 none y r = 0 := by
  rcases hclosed with hblank | hvalue
  · exact overrun_blank (bearer_ends isWord) hblank _
  · rcases hr with rfl | ⟨z, rfl⟩
    · exact overrun_blank (bearer_ends isWord) (fun _ hc => absurd hc List.not_mem_nil) _
    · apply Nat.eq_zero_of_le_zero
      apply Rewrite.overrun_le (Nat.zero_le _)
      intro prev t hne ht found hfound
      by_contra hlong
      have hopener := bearer_cross isWord hfound (by omega)
      have hends : t <:+ u ++ v := by
        apply Rewrite.suffix_of_written (w := authorizationPattern) (z := "[REDACTED".toList) rfl
          hopener.no_bracket
        exact ht.trans hsuffix
      exact hvalue t (hopener.behind_edge hu hv hends) hopener

/-- What the first two patterns make of a value that is closed or has only blanks behind it, and of
what follows its line. -/
theorem residue_line (hu : Edge u) (hv : IsValue v)
    (hclosed : (∀ c ∈ s, isWhitespace c = true) ∨ IsClosed v) (hs : Follows s) :
    ∃ y, (∀ c ∈ y, c ≠ '\n') ∧ residue isWord u (v ++ s) =
      y ++ (bearerPattern isWord).onward (authorizationPattern.onward s) := by
  have hopens := hv.opens.append s
  obtain ⟨y, hwritten, hy, hrest⟩ := authorization_plain.line (by decide) hv.line hs
    (overrun_authorization hu hv.opens hclosed hs)
  have hs' : Follows (authorizationPattern.onward s) := hs.onward authorizationPattern
  rw [hu.headed_eq hopens] at hwritten
  have hstop : (bearerPattern isWord).overrun 0 none (headed u ++ y)
      (authorizationPattern.onward s) = 0 := by
    rw [← hwritten]
    apply overrun_bearer isWord hu hv.opens _ (List.suffix_refl _) hs'
    apply hclosed.imp_left
    intro hblank
    rw [onward_blank authorization_ends hblank]
    exact hblank
  have hmark : '\n' ∉ "Bearer [REDACTED]".toList := by decide
  obtain ⟨z, -, hz, hlast⟩ := (bearer_plain isWord).line hmark hy hs' hstop
  refine ⟨z, hz, ?_⟩
  rw [residue, unheaded, hrest]
  exact hlast

end PackageHarness.Redaction
