/-
# PackageHarness.Analysis.KeyValues — where the key pattern matches, and how far.

The pattern matches at the start of a line if the text up to the first separator names a key. It keeps
that text, the separator and the blanks behind it, and takes the rest of the line. Of the many ways in
which the name can be divided, each gives the same match, so `keyValueAt` reads it from left to right.
-/
import PackageHarness.Analysis.Edges

namespace PackageHarness.Redaction

open Text Text.Regex

variable {c d : Char} {name r s t u x : List Char} {prev : Option Char} {found : Found}

/-! ## The match -/

/-- What stands before the separator: a key word between other characters, and blanks. -/
def keyName : Regex :=
  seq (many isKeyChar) (seq keyWord (seq (many isKeyChar) (many isWhitespace)))

/-- Whether a text names a key. -/
def isKeyed (name : List Char) : Bool := (keyName.runs none name).any fun run => run.2.isEmpty

/-- The match with this text before the separator. -/
def keyValueAt (name : List Char) (sep : Char) (r : List Char) : Found where
  kept := name ++ sep :: r.takeWhile isWhitespace
  dropped := (r.dropWhile isWhitespace).takeWhile notNewline
  behind := (r.dropWhile isWhitespace).dropWhile notNewline

theorem keyValue_group (prev : Option Char) (s : List Char) :
    (seq (many isKeyChar) (seq keyWord (seq (many isKeyChar) (seq (many isWhitespace)
      (seq (one isSeparator) (many isWhitespace)))))).runs prev s =
        (seq keyName (seq (one isSeparator) (many isWhitespace))).runs prev s := by
  rw [keyName, runs_seq_assoc]
  apply runs_seq_congr
  intro prev s
  rw [runs_seq_assoc]
  apply runs_seq_congr
  intro prev s
  rw [runs_seq_assoc]

theorem avoids_of_isSeparator (hc : isSeparator c = true) : keyName.avoids c = true := by
  rcases Bool.or_eq_true_iff.mp hc with h | h
  · rw [beq_iff_eq.mp h]
    decide
  · rw [beq_iff_eq.mp h]
    decide

/-- The rest of a line. -/
theorem line_runs_head? (prev : Option Char) (s : List Char) :
    (keyValuePattern.rest.runs prev s).head? =
      some (s.takeWhile notNewline, s.dropWhile notNewline) := by
  show List.head? (List.flatMap _ (manyRuns notNewline s)) = _
  apply head?_flatMap_first manyRuns_head?
  have hend : lineEnd (lastOf prev (s.takeWhile notNewline)) (s.dropWhile notNewline).head? = true := by
    cases hrest : s.dropWhile notNewline with
    | nil => rfl
    | cons c y =>
        have hnot : notNewline c = false := dropWhile_ne_nil hrest
        rw [notNewline, bne_eq_false_iff_eq] at hnot
        rw [hnot]
        rfl
  show List.head? (List.map _ (runs (look lineEnd) _ _)) = _
  rw [runs, if_pos hend]
  show some (s.takeWhile notNewline ++ [], s.dropWhile notNewline) = _
  rw [List.append_nil]

theorem separator_runs_of_false (hd : isSeparator d = false) (prev : Option Char) (s : List Char) :
    (seq (one isSeparator) (many isWhitespace)).runs prev (d :: s) = [] := by
  rw [runs, runs, oneRuns, hd, if_neg Bool.false_ne_true]
  rfl

/-- The first way to read on from the separator. -/
theorem separator_runs_head? {sep : Char} (hsep : isSeparator sep = true) (prev prev' : Option Char)
    (name r : List Char) :
    (((seq (one isSeparator) (many isWhitespace)).runs prev' (sep :: r)).flatMap fun later =>
      (keyValuePattern.rest.runs (lastOf prev (name ++ later.1)) later.2).map fun last =>
        (⟨name ++ later.1, last.1, last.2⟩ : Found)).head? = some (keyValueAt name sep r) := by
  have hone : oneRuns isSeparator (sep :: r) = [([sep], r)] := if_pos hsep
  rw [seq_flatMap]
  show List.head? (List.flatMap _ (oneRuns isSeparator (sep :: r))) = _
  rw [hone, List.flatMap_singleton]
  show List.head? (List.flatMap _ (manyRuns isWhitespace r)) = _
  apply head?_flatMap_first manyRuns_head?
  rw [List.head?_map, line_runs_head?]
  rfl

theorem keyValue_first (hname : ∀ c ∈ name, isSeparator c = false) {sep : Char}
    (hsep : isSeparator sep = true) (prev : Option Char) (r : List Char) :
    keyValuePattern.first prev (name ++ sep :: r) =
      if lineStart prev none = true ∧ isKeyed name = true then some (keyValueAt name sep r)
      else none := by
  show List.head? (List.flatMap _ (runs (seq (look lineStart) (seq (many isKeyChar) (seq keyWord
    (seq (many isKeyChar) (seq (many isWhitespace) (seq (one isSeparator) (many isWhitespace)))))))
    prev (name ++ sep :: r))) = _
  rw [seq_flatMap]
  cases hstart : lineStart prev none with
  | false =>
      have hnone : runs (look lineStart) prev (name ++ sep :: r) = [] :=
        if_neg (Bool.eq_false_iff.mp hstart)
      rw [hnone, if_neg fun h => Bool.false_ne_true h.1]
      rfl
  | true =>
      have hhere : runs (look lineStart) prev (name ++ sep :: r) = [([], name ++ sep :: r)] :=
        if_pos hstart
      rw [hhere, List.flatMap_singleton, keyValue_group, seq_flatMap,
        runs_stop (avoids_of_isSeparator hsep), List.flatMap_map,
        runs_blind (r := keyName) rfl _ none,
        head?_flatMap (p := fun run => run.2.isEmpty) (b := keyValueAt name sep r)]
      · show (if isKeyed name = true then _ else _) = _
        cases isKeyed name <;> rfl
      · rintro ⟨taken, left⟩ hmem hleft
        have hsplit := append_of_mem_runs hmem
        cases left with
        | nil => cases hleft
        | cons d left =>
            have hd : isSeparator d = false := hname d (by rw [hsplit]; simp)
            show List.flatMap _ (runs (seq (one isSeparator) (many isWhitespace)) _
              (d :: (left ++ sep :: r))) = []
            rw [separator_runs_of_false hd]
            rfl
      · rintro ⟨taken, left⟩ hmem hleft
        have hsplit := append_of_mem_runs hmem
        cases left with
        | cons d left => cases hleft
        | nil =>
            have htaken : name = taken := by rw [hsplit, List.append_nil]
            rw [htaken]
            exact separator_runs_head? hsep prev _ taken r

/-- A text has no separator, or it has a first one. -/
theorem separator_split (s : List Char) : (∀ c ∈ s, isSeparator c = false) ∨
    ∃ name sep r, s = name ++ sep :: r ∧ (∀ c ∈ name, isSeparator c = false) ∧
      isSeparator sep = true := by
  induction s with
  | nil => exact Or.inl fun c hc => absurd hc List.not_mem_nil
  | cons c s ih =>
      cases hc : isSeparator c with
      | true => exact Or.inr ⟨[], c, s, rfl, fun d hd => absurd hd List.not_mem_nil, hc⟩
      | false =>
          rcases ih with hnone | ⟨name, sep, r, rfl, hname, hsep⟩
          · exact Or.inl (List.forall_mem_cons.mpr ⟨hc, hnone⟩)
          · exact Or.inr ⟨c :: name, sep, r, rfl, List.forall_mem_cons.mpr ⟨hc, hname⟩, hsep⟩

/-! ## The match before a value -/

variable {sep : Char}

/-- The blanks behind the separator do not go on in the text behind the edge. -/
theorem Meets.blanks (hsep : isSeparator sep = true) (h : Meets (name ++ sep :: r) s) :
    (r ++ s).takeWhile isWhitespace = r.takeWhile isWhitespace ∧
      (r ++ s).dropWhile isWhitespace = r.dropWhile isWhitespace ++ s := by
  rcases h.joint with ⟨q, hq⟩ | hopens
  · rcases List.eq_nil_or_concat r with rfl | ⟨y, d, rfl⟩
    · have hlast := (List.append_inj' hq rfl).2
      rw [List.singleton_inj.mp hlast] at hsep
      cases hsep
    · rw [List.concat_eq_append, ← List.cons_append, ← List.append_assoc] at hq
      have hd : d = ']' := List.singleton_inj.mp (List.append_inj' hq rfl).2
      have hclose : ∀ z, Opens (']' :: z) := fun z => ⟨']', z, rfl, rfl⟩
      have hassoc : y ++ [']'] ++ s = y ++ ']' :: s := by simp
      rw [List.concat_eq_append, hd, hassoc, takeWhile_opens y (hclose s), dropWhile_opens y (hclose s),
        takeWhile_opens y (hclose []), dropWhile_opens y (hclose [])]
      exact ⟨rfl, by simp⟩
  · exact ⟨takeWhile_opens r hopens, dropWhile_opens r hopens⟩

theorem keyValueAt_kept (hsep : isSeparator sep = true) (h : Meets (name ++ sep :: r) s) (y : List Char) :
    (keyValueAt y sep (r ++ s)).kept = y ++ sep :: r.takeWhile isWhitespace := by
  rw [keyValueAt, (h.blanks hsep).1]

/-- The match ends before the edge, or it goes on to the end of the line. -/
theorem keyValueAt_cases (hsep : isSeparator sep = true) (y name r : List Char) :
    (∃ n ≤ (y ++ sep :: r).length, ∀ s, Meets (name ++ sep :: r) s →
      (keyValueAt y sep (r ++ s)).size = n) ∨
      ∀ s, Meets (name ++ sep :: r) s →
        (keyValueAt y sep (r ++ s)).size = (y ++ sep :: r).length + (s.takeWhile notNewline).length ∧
        (keyValueAt y sep (r ++ s)).dropped = r.dropWhile isWhitespace ++ s.takeWhile notNewline ∧
        (keyValueAt y sep (r ++ s)).behind = s.dropWhile notNewline := by
  have hparts := congrArg List.length
    (List.takeWhile_append_dropWhile (p := isWhitespace) (l := r))
  rw [List.length_append] at hparts
  rcases takeWhile_append_cases notNewline (r.dropWhile isWhitespace) with hend | hon
  · left
    have hle := (List.takeWhile_prefix notNewline (l := r.dropWhile isWhitespace)).length_le
    refine ⟨(y ++ sep :: r.takeWhile isWhitespace).length +
      ((r.dropWhile isWhitespace).takeWhile notNewline).length, ?_, ?_⟩
    · simp only [List.length_append, List.length_cons]
      omega
    · intro s hs
      rw [Found.size, keyValueAt_kept hsep hs, keyValueAt, (hs.blanks hsep).2, hend]
  · right
    intro s hs
    have hdropped : (keyValueAt y sep (r ++ s)).dropped =
        r.dropWhile isWhitespace ++ s.takeWhile notNewline := by
      rw [keyValueAt, (hs.blanks hsep).2, hon]
    refine ⟨?_, hdropped, ?_⟩
    · rw [Found.size, keyValueAt_kept hsep hs, hdropped]
      simp only [List.length_append, List.length_cons]
      omega
    · have hwhole := List.takeWhile_append_dropWhile (p := notNewline)
        (l := r.dropWhile isWhitespace ++ s)
      have hline := List.takeWhile_append_dropWhile (p := notNewline) (l := s)
      rw [hon, List.append_assoc, List.append_cancel_left_eq] at hwhole
      rw [keyValueAt, (hs.blanks hsep).2]
      show (r.dropWhile isWhitespace ++ s).dropWhile notNewline = _
      exact List.append_cancel_left (hwhole.trans hline.symm)

/-- Two texts behind the same edge are read alike from a place before it, if the separator stands
before the edge too. -/
theorem keyValue_agree {t v : List Char} (hx : x ++ (t ++ v) = u) (hs : Meets u s) (hs' : Meets u s')
    (hmem : ∃ c ∈ t ++ v, isSeparator c = true)
    (hlong : v ≠ [] ∨ s.takeWhile notNewline ≠ [] ∧ s'.takeWhile notNewline ≠ []) :
    Rewrite.AgreeEnds keyValuePattern prev t (v ++ s) (v ++ s') := by
  rcases separator_split (t ++ v) with hnone | ⟨name, sep, r, htv, hname, hsep⟩
  · obtain ⟨c, hc, hseparator⟩ := hmem
    rw [hnone c hc] at hseparator
    cases hseparator
  · have hu : u = x ++ name ++ sep :: r := by rw [← hx, htv, List.append_assoc]
    rw [hu] at hs hs'
    have htext : ∀ y, t ++ (v ++ y) = name ++ sep :: (r ++ y) := by
      intro y
      rw [← List.append_assoc, htv]
      simp
    rw [Rewrite.AgreeEnds, htext, htext, keyValue_first hname hsep, keyValue_first hname hsep]
    by_cases hkey : lineStart prev none = true ∧ isKeyed name = true
    · rw [if_pos hkey, if_pos hkey]
      refine Or.inr ⟨_, _, rfl, rfl, ?_, ?_⟩
      · rw [keyValueAt_kept hsep hs, keyValueAt_kept hsep hs']
      · have hlength := congrArg List.length htv
        rw [List.length_append] at hlength
        rcases keyValueAt_cases hsep name (x ++ name) r with ⟨n, -, hend⟩ | hon
        · exact Or.inl (by rw [hend s hs, hend s' hs'])
        · right
          rw [(hon s hs).1, (hon s' hs').1, ← hlength]
          rcases hlong with hv | ⟨hline, hline'⟩
          · have hpos := List.length_pos_of_ne_nil hv
            omega
          · have hpos := List.length_pos_of_ne_nil hline
            have hpos' := List.length_pos_of_ne_nil hline'
            omega
    · rw [if_neg hkey, if_neg hkey]
      exact Or.inl ⟨rfl, rfl⟩

end PackageHarness.Redaction
