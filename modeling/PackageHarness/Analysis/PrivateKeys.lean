/-
# PackageHarness.Analysis.PrivateKeys — how far the last two patterns go.

A match of the url pattern has no blank. A match of the private-key pattern begins and ends with a
boundary line, and between them it is lazy: before a boundary that ends a key it stops there at the
latest. No boundary line goes on behind a blank that stands before a dash.
-/
import Mathlib.Data.List.Chain
import Mathlib.Data.List.Infix
import PackageHarness.Analysis.Endings
import PackageHarness.Text.Extent

namespace PackageHarness.Redaction

open Text Text.Regex

variable {a b c d m r s t u w x y : List Char} {prev : Option Char} {found : Found}

/-! ## The url pattern -/

theorem spells_exactly : Spells exactly x s ↔ s = x := by
  induction x generalizing s with
  | nil =>
      constructor
      · intro h
        cases h
        rfl
      · rintro rfl
        exact List.Forall₂.nil
  | cons c x ih =>
      constructor
      · intro h
        cases h with
        | cons hd hx => rw [ih.mp hx, beq_iff_eq.mp hd]
      · rintro rfl
        exact List.Forall₂.cons (beq_self_eq_true c) (ih.mpr rfl)

theorem notWhitespace_of_sameLetter {l e : Char} (hl : isWhitespace l = false)
    (h : sameLetter l e = true) : notWhitespace e = true := by
  rw [notWhitespace, Bool.not_eq_true']
  cases hblank : isWhitespace e with
  | false => rfl
  | true =>
      rw [sameLetter, fold_of_isWhitespace hblank, beq_iff_eq] at h
      rw [← h, hblank] at hl
      cases hl

theorem takesOnly_word (hw : w.all (fun c => !isWhitespace c) = true) :
    TakesOnly notWhitespace (spell sameLetter w) := by
  apply takesOnly_spell
  intro c hc e he
  apply notWhitespace_of_sameLetter _ he
  simpa using List.all_eq_true.mp hw c hc

theorem url_takesOnly :
    TakesOnly notWhitespace urlPattern.group ∧ TakesOnly notWhitespace urlPattern.rest := by
  have huser : ∀ e, isUserChar e = true → notWhitespace e = true := by
    intro e he
    rw [isUserChar, Bool.not_eq_true', Bool.or_eq_false_iff, Bool.or_eq_false_iff] at he
    rw [notWhitespace, he.1.2]
    rfl
  have hpassword : ∀ e, isPasswordChar e = true → notWhitespace e = true := by
    intro e he
    rw [isPasswordChar, Bool.not_eq_true', Bool.or_eq_false_iff] at he
    rw [notWhitespace, he.2]
    rfl
  have hmark : ∀ l, isWhitespace l = false → ∀ e, exactly l e = true → notWhitespace e = true := by
    intro l hl e he
    rw [beq_iff_eq.mp he, notWhitespace, hl]
    rfl
  constructor
  · exact takesOnly_seq (takesOnly_word rfl)
      (takesOnly_seq (takesOnly_alt (takesOnly_word rfl) takesOnly_empty) (takesOnly_word rfl))
  · exact takesOnly_seq (takesOnly_plus huser) (takesOnly_seq (takesOnly_one (hmark ':' rfl))
      (takesOnly_seq (takesOnly_plus hpassword) (takesOnly_one (hmark '@' rfl))))

/-- Only the letter `h` begins an address. -/
theorem url_idle {e : Char} (he : sameLetter 'h' e = false) (prev : Option Char) (s : List Char) :
    urlPattern.first prev (e :: s) = none := by
  cases h : urlPattern.first prev (e :: s) with
  | none => rfl
  | some found =>
      obtain ⟨left, hleft, -⟩ := Rewrite.first_sound h
      obtain ⟨scheme, hscheme, -⟩ := mem_seq.mp hleft
      have hspells := mem_runs_spell hscheme
      rw [runs_spell] at hscheme
      have hspelled : spelled sameLetter "http".toList (e :: s) = false := by
        show (sameLetter 'h' e && _) = false
        rw [he, Bool.false_and]
      rw [hspelled] at hscheme
      cases hscheme

/-- A text behind a blank in which no address begins stays. -/
theorem url_keeps (hm : ∀ e ∈ m, sameLetter 'h' e = false) (a b : List Char) :
    ∃ a' b', urlPattern.replaceAll (a ++ ' ' :: (m ++ b)) = a' ++ ' ' :: (m ++ b') := by
  have hstop : urlPattern.overrun 0 none a (' ' :: (m ++ b)) = 0 := by
    apply Nat.eq_zero_of_le_zero
    apply Rewrite.overrun_le (Nat.zero_le _)
    intro prev t _ _ found hfound
    exact Rewrite.size_le_of_takesOnly url_takesOnly.1 url_takesOnly.2 rfl hfound
  have hall : ∀ e ∈ ' ' :: m, sameLetter 'h' e = false := List.forall_mem_cons.mpr ⟨rfl, hm⟩
  have hidle : ∀ e ∈ ' ' :: m, ∀ prev s, urlPattern.first prev (e :: s) = none :=
    fun e he => url_idle (hall e he)
  obtain ⟨hwritten, hquiet⟩ := Rewrite.written_idle hidle (lastOf none a) b
  rw [Rewrite.replaceAll, Rewrite.replaceFrom_append, hstop, ← List.cons_append,
    Rewrite.replaceFrom_append, hwritten, hquiet]
  exact ⟨_, _, rfl⟩

/-! ## Boundary lines -/

/-- `-----BEGIN [^-]*PRIVATE KEY-----` or `-----END [^-]*PRIVATE KEY-----`. -/
def boundary (word : List Char) : Regex :=
  seq (spell exactly word) (seq (many notDash) (spell exactly "PRIVATE KEY-----".toList))

theorem privateKey_runs (prev : Option Char) (s : List Char) :
    privateKeyPattern.rest.runs prev s = (seq (boundary "-----BEGIN ".toList)
      (seq (manyLazy fun _ => true) (boundary "-----END ".toList))).runs prev s := by
  rw [boundary, runs_seq_assoc]
  apply runs_seq_congr
  intro prev s
  rw [runs_seq_assoc]
  rfl

theorem mem_boundary {run : List Char × List Char} (h : run ∈ (boundary w).runs prev s) :
    ∃ x, run.1 = w ++ (x ++ "PRIVATE KEY-----".toList) ∧ ∀ e ∈ x, notDash e = true := by
  obtain ⟨word, hword, later, hlater, rfl⟩ := mem_seq.mp h
  obtain ⟨kind, hkind, last, hlast, rfl⟩ := mem_seq.mp hlater
  refine ⟨kind.1, ?_, (mem_manyRuns.mp hkind).2⟩
  rw [← spells_exactly.mp (mem_runs_spell hword).2, ← spells_exactly.mp (mem_runs_spell hlast).2]

/-- A dash does not stand behind a blank. -/
def Attached (e f : Char) : Prop := f = '-' → e ≠ ' '

instance : DecidableRel Attached := fun e f => inferInstanceAs (Decidable (f = '-' → e ≠ ' '))

theorem attached_of_notDash (hx : ∀ e ∈ x, notDash e = true) : x.IsChain Attached := by
  rw [List.isChain_iff_forall_rel_of_append_cons_cons]
  rintro e f a b rfl hf
  have hdash := hx f (by simp)
  rw [hf] at hdash
  cases hdash

theorem boundary_attached {run : List Char × List Char} (hw : w.IsChain Attached)
    (h : run ∈ (boundary w).runs prev s) : run.1.IsChain Attached := by
  obtain ⟨x, hrun, hx⟩ := mem_boundary h
  have hkey : "PRIVATE KEY-----".toList.IsChain Attached := by decide
  rw [hrun]
  apply hw.append ((attached_of_notDash hx).append hkey _)
  · intro e _ f hf hdash
    cases x with
    | nil =>
        cases hf
        cases hdash
    | cons g x =>
        cases hf
        have hno := hx _ List.mem_cons_self
        rw [hdash] at hno
        cases hno
  · intro e _ f hf hdash
    cases hf
    cases hdash

/-- A boundary line ends before a blank and a dash, or with the blank. -/
theorem boundary_length_le {run : List Char × List Char} (hw : w.IsChain Attached)
    (h : run ∈ (boundary w).runs prev (y ++ ' ' :: '-' :: r)) : run.1.length ≤ y.length + 1 := by
  have hsplit := append_of_mem_runs h
  by_contra hlong
  obtain ⟨e, he⟩ : y ++ [' ', '-'] <+: run.1 := by
    refine List.prefix_of_prefix_length_le (?_ : _ <+: y ++ ' ' :: '-' :: r) ?_ ?_
    · exact ⟨r, by simp⟩
    · rw [hsplit]
      exact List.prefix_append _ _
    · simp only [List.length_append, List.length_cons, List.length_nil]
      omega
  have hchain := boundary_attached hw h
  rw [← he, List.append_assoc] at hchain
  exact (List.isChain_append_cons_cons.mp hchain).2.1 rfl rfl

/-- Behind its first word a boundary line goes on to the first dash, and takes five. -/
theorem boundary_length {run : List Char × List Char} (h : run ∈ (boundary w).runs prev (w ++ s)) :
    run.1.length = w.length + (s.takeWhile notDash).length + 5 := by
  have hsplit := append_of_mem_runs h
  obtain ⟨x, hrun, hx⟩ := mem_boundary h
  have hkey : "PRIVATE KEY-----".toList = "PRIVATE KEY".toList ++ "-----".toList := rfl
  have hletters : ∀ e ∈ x ++ "PRIVATE KEY".toList, notDash e = true := by
    have hall : "PRIVATE KEY".toList.all notDash = true := rfl
    exact List.forall_mem_append.mpr ⟨hx, fun e he => List.all_eq_true.mp hall e he⟩
  rw [hrun, List.append_assoc, List.append_cancel_left_eq] at hsplit
  have htext : s = x ++ "PRIVATE KEY".toList ++ ("-----".toList ++ run.2) := by
    rw [hsplit, hkey]
    simp only [List.append_assoc]
  have hstop : ∀ e ∈ ("-----".toList ++ run.2).head?, notDash e = false := by
    intro e he
    cases he
    rfl
  rw [htext, takeWhile_stop hletters hstop, hrun]
  simp only [List.length_append]
  have hlength : "PRIVATE KEY-----".toList.length = "PRIVATE KEY".toList.length + 5 := rfl
  omega

/-- The end of every boundary line. -/
def BOUNDARY_END : List Char := "PRIVATE KEY-----".toList

theorem privateKey_endsWith : EndsWith BOUNDARY_END privateKeyPattern.rest := by
  have hspell : EndsWith BOUNDARY_END (spell exactly "PRIVATE KEY-----".toList) := by
    intro prev s run h
    rw [spells_exactly.mp (mem_runs_spell h).2]
    exact List.suffix_refl _
  exact endsWith_seq (endsWith_seq (endsWith_seq (endsWith_seq (endsWith_seq
    (endsWith_seq hspell _) _) _) _) _) _

/-! ## The private-key pattern before the end of a key -/

/-- The line that ends a key. -/
def END_PRIVATE_KEY : List Char := "-----END PRIVATE KEY-----".toList

theorem end_boundary (prev : Option Char) (s : List Char) :
    (END_PRIVATE_KEY, s) ∈ (boundary "-----END ".toList).runs prev (END_PRIVATE_KEY ++ s) := by
  have hself : ∀ l : List Char, Spells exactly l l := fun l => spells_exactly.mpr rfl
  have hkey : ∀ prev, ("PRIVATE KEY-----".toList, s) ∈
      (seq (many notDash) (spell exactly "PRIVATE KEY-----".toList)).runs prev
        ("PRIVATE KEY-----".toList ++ s) := by
    intro prev
    apply mem_seq.mpr
    refine ⟨([], "PRIVATE KEY-----".toList ++ s),
      mem_manyRuns.mpr ⟨rfl, fun _ he => absurd he List.not_mem_nil⟩,
      ("PRIVATE KEY-----".toList, s), ?_, rfl⟩
    rw [runs_spell_append (hself _)]
    exact List.mem_singleton_self _
  apply mem_seq.mpr
  refine ⟨("-----END ".toList, "PRIVATE KEY-----".toList ++ s), ?_, _, hkey _, rfl⟩
  have htext : END_PRIVATE_KEY ++ s = "-----END ".toList ++ ("PRIVATE KEY-----".toList ++ s) := rfl
  rw [htext, runs_spell_append (hself _)]
  exact List.mem_singleton_self _

/-- A boundary line that begins there, or before a blank there, ends there too. -/
theorem end_length_le {run : List Char × List Char} (hx : x = [] ∨ ∃ y, x = y ++ [' '])
    (h : run ∈ (boundary "-----END ".toList).runs prev (x ++ (END_PRIVATE_KEY ++ s))) :
    run.1.length ≤ x.length + END_PRIVATE_KEY.length := by
  rcases hx with rfl | ⟨y, rfl⟩
  · have hlength := boundary_length (w := "-----END ".toList)
      (s := "PRIVATE KEY-----".toList ++ s) h
    have htaken : ("PRIVATE KEY-----".toList ++ s).takeWhile notDash = "PRIVATE KEY".toList := rfl
    rw [hlength, htaken]
    decide
  · have hread : y ++ [' '] ++ (END_PRIVATE_KEY ++ s) =
        y ++ ' ' :: '-' :: ("----END PRIVATE KEY-----".toList ++ s) := by
      rw [List.append_assoc]
      rfl
    rw [hread] at h
    have hlength := boundary_length_le (by decide) h
    rw [List.length_append, List.length_singleton]
    omega

/-- A match that begins before a blank and the end of a key goes no further. -/
theorem privateKey_size_le
    (h : privateKeyPattern.first prev (y ++ ' ' :: (END_PRIVATE_KEY ++ s)) = some found) :
    found.size ≤ y.length + 1 + END_PRIVATE_KEY.length := by
  have hmap : Option.map (fun run : List Char × List Char => (⟨[], run.1, run.2⟩ : Found))
      (privateKeyPattern.rest.runs prev (y ++ ' ' :: (END_PRIVATE_KEY ++ s))).head? = some found := by
    rw [← List.head?_map, ← h]
    exact congrArg List.head? (List.flatMap_singleton _ _).symm
  obtain ⟨run, hrun, rfl⟩ := Option.map_eq_some_iff.mp hmap
  rw [privateKey_runs, runs, List.head?_flatMap] at hrun
  obtain ⟨front, hfront, hhead⟩ := List.exists_of_findSome?_eq_some hrun
  rw [List.head?_map] at hhead
  obtain ⟨later, hlater, rfl⟩ := Option.map_eq_some_iff.mp hhead
  -- The first boundary line ends before the blank or with it.
  have hshort : front.1.length ≤ y.length + 1 :=
    boundary_length_le (r := "----END PRIVATE KEY-----".toList ++ s) (by decide) hfront
  have hsplit := append_of_mem_runs hfront
  have htext : y ++ ' ' :: (END_PRIVATE_KEY ++ s) = y ++ [' '] ++ (END_PRIVATE_KEY ++ s) := by simp
  obtain ⟨q, hq⟩ : front.1 <+: y ++ [' '] := by
    refine List.prefix_of_prefix_length_le (?_ : _ <+: y ++ [' '] ++ (END_PRIVATE_KEY ++ s)) ?_ ?_
    · rw [← htext, hsplit]
      exact List.prefix_append _ _
    · exact List.prefix_append _ _
    · rw [List.length_append]
      exact hshort
  rw [htext, ← hq, List.append_assoc, List.append_cancel_left_eq] at hsplit
  have hqlength := congrArg List.length hq
  rw [List.length_append, List.length_append, List.length_singleton] at hqlength
  -- The repetition stops where the key ends, or before.
  rw [← hsplit, runs] at hlater
  obtain ⟨x, z, hxz, hle, hmem⟩ := manyLazy_le (p := fun _ => true) (fun _ _ => rfl) (by
    intro hnil
    have hnone := List.map_eq_nil_iff.mp hnil
    have hin := end_boundary (lastOf (lastOf prev front.1) q) s
    rw [hnone] at hin
    cases hin) hlater
  obtain ⟨fin, hfin, rfl⟩ := List.mem_map.mp hmem
  obtain ⟨q', hq'⟩ : x <+: q := by
    refine List.prefix_of_prefix_length_le (?_ : _ <+: q ++ (END_PRIVATE_KEY ++ s)) ?_ ?_
    · rw [hxz]
      exact List.prefix_append _ _
    · exact List.prefix_append _ _
    · exact hle
  rw [← hq', List.append_assoc, List.append_cancel_left_eq] at hxz
  rw [← hxz] at hfin
  have hblank : q' = [] ∨ ∃ r, q' = r ++ [' '] := by
    rcases List.eq_nil_or_concat q' with hnil | ⟨r, e, hr⟩
    · exact Or.inl hnil
    · rw [List.concat_eq_append] at hr
      have hends : front.1 ++ x ++ r ++ [e] = y ++ [' '] := by
        rw [← hq, ← hq', hr]
        simp
      exact Or.inr ⟨r, by rw [hr, List.singleton_inj.mp (List.append_inj' hends rfl).2]⟩
  have hlast := end_length_le hblank hfin
  have hwhole := congrArg List.length hq'
  rw [List.length_append] at hwhole
  simp only [Found.size, List.length_append, List.length_nil]
  omega

theorem privateKey_none (hs : spelled exactly "-----BEGIN ".toList s = false) (prev : Option Char) :
    privateKeyPattern.first prev s = none := by
  cases h : privateKeyPattern.first prev s with
  | none => rfl
  | some found =>
      obtain ⟨left, hleft, right, hright, -⟩ := Rewrite.first_sound h
      obtain ⟨word, hword, -⟩ := mem_seq.mp hright
      rw [List.mem_singleton.mp hleft, runs_spell, hs] at hword
      cases hword

/-- No word begins in the line that ends a key if it differs there from each of the line's ends. -/
theorem end_no_word {same : Char → Char → Bool} (hall : END_PRIVATE_KEY.tails.all (fun t =>
      t.isEmpty || !spelled same (w.take (t ++ [' ']).length) (t ++ [' '])) = true)
    (ht : t <:+ END_PRIVATE_KEY) (hne : t ≠ []) (s : List Char) :
    spelled same w (t ++ ' ' :: s) = false := by
  have hhere := List.all_eq_true.mp hall t ((List.mem_tails t _).mpr ht)
  rw [List.isEmpty_eq_false_iff.mpr hne, Bool.false_or, Bool.not_eq_true'] at hhere
  cases h : spelled same w (t ++ ' ' :: s) with
  | false => rfl
  | true =>
      have htext : t ++ ' ' :: s = t ++ [' '] ++ s := by simp
      rw [htext] at h
      rw [spelled_take h] at hhere
      cases hhere

/-- No key begins there. -/
theorem end_no_begin (ht : t <:+ END_PRIVATE_KEY) (hne : t ≠ []) (s : List Char) :
    spelled exactly "-----BEGIN ".toList (t ++ ' ' :: s) = false :=
  end_no_word rfl ht hne s

/-- A text without dashes behind the end of a key and a blank stays. -/
theorem privateKey_keeps (hm : ∀ e ∈ m, notDash e = true) (a b : List Char) :
    ∃ a' b', privateKeyPattern.replaceAll (a ++ ' ' :: (END_PRIVATE_KEY ++ ' ' :: (m ++ b))) =
      a' ++ ' ' :: (m ++ b') := by
  have htext : a ++ ' ' :: (END_PRIVATE_KEY ++ ' ' :: (m ++ b)) =
      a ++ [' '] ++ END_PRIVATE_KEY ++ (' ' :: m ++ b) := by simp
  have hstop :
      privateKeyPattern.overrun 0 none (a ++ [' '] ++ END_PRIVATE_KEY) (' ' :: m ++ b) = 0 := by
    apply Nat.eq_zero_of_le_zero
    apply Rewrite.overrun_le (Nat.zero_le _)
    rintro prev t hne ⟨q, hq⟩ found hfound
    rcases List.append_eq_append_iff.mp hq with ⟨y, hy, rfl⟩ | ⟨y, -, hy⟩
    · rcases List.eq_nil_or_concat y with rfl | ⟨y, e, rfl⟩
      · rw [List.nil_append, List.cons_append,
          privateKey_none (end_no_begin (List.suffix_refl _) (by decide) _)] at hfound
        cases hfound
      · rw [List.concat_eq_append] at hy hfound ⊢
        have he : e = ' ' := by
          rw [← List.append_assoc] at hy
          exact (List.singleton_inj.mp (List.append_inj' hy rfl).2).symm
        have hread : y ++ [e] ++ END_PRIVATE_KEY ++ (' ' :: m ++ b) =
            y ++ ' ' :: (END_PRIVATE_KEY ++ (' ' :: m ++ b)) := by
          rw [he]
          simp
        rw [hread] at hfound
        have hsize := privateKey_size_le hfound
        rw [List.length_append, List.length_append]
        exact hsize
    · rw [List.cons_append, privateKey_none (end_no_begin ⟨y, hy.symm⟩ hne _)] at hfound
      cases hfound
  have hidle : ∀ e ∈ ' ' :: m, ∀ prev s, privateKeyPattern.first prev (e :: s) = none := by
    intro e he prev s
    apply privateKey_none
    have hdash : exactly '-' e = false := by
      rcases List.mem_cons.mp he with rfl | hin
      · rfl
      · have hnot := hm e hin
        rw [notDash, bne_iff_ne] at hnot
        rw [exactly, beq_eq_false_iff_ne]
        exact hnot
    have hword : "-----BEGIN ".toList = '-' :: "----BEGIN ".toList := rfl
    rw [hword, spelled, hdash, Bool.false_and]
  obtain ⟨hwritten, hquiet⟩ :=
    Rewrite.written_idle hidle (lastOf none (a ++ [' '] ++ END_PRIVATE_KEY)) b
  rw [htext, Rewrite.replaceAll, Rewrite.replaceFrom_append, hstop, Rewrite.replaceFrom_append,
    hwritten, hquiet]
  exact ⟨_, _, rfl⟩

end PackageHarness.Redaction
