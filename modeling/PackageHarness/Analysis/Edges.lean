/-
# PackageHarness.Analysis.Edges — the place between a key and its value.

The text up to a value ends in a separator and blanks. Neither the header pattern nor the bearer
pattern begins a match there, so after each of them the text up to the value still ends so, or in the
bracket of a replacement. What they write up to that place does not depend on the value.
-/
import PackageHarness.Analysis.Endings

namespace PackageHarness.Redaction

open Text Text.Regex

variable {c d e : Char} {q b s s' t u x y : List Char} {prev : Option Char}

/-! ## Edges -/

/-- A separator, or the end of a replacement. -/
def isMark (c : Char) : Bool := isSeparator c || c == ']'

/-- A text that ends in a mark and blanks of the same line. -/
def Edge (u : List Char) : Prop :=
  ∃ q e b, u = q ++ e :: b ∧ isMark e = true ∧ ∀ c ∈ b, isWhitespace c = true ∧ c ≠ '\n'

/-- A text that ends in a replacement. -/
def Shut (u : List Char) : Prop := ∃ q, u = q ++ [']']

/-- A text behind an edge: it opens with a character that is no blank, or the edge is a bracket. -/
structure Meets (u s : List Char) : Prop where
  edge : Edge u
  joint : Shut u ∨ Opens s

theorem not_blank_of_isMark (h : isMark e = true) : isWhitespace e = false := by
  rcases Bool.or_eq_true_iff.mp h with hsep | hclose
  · rcases Bool.or_eq_true_iff.mp hsep with hcolon | hequals
    · rw [beq_iff_eq.mp hcolon]
      rfl
    · rw [beq_iff_eq.mp hequals]
      rfl
  · rw [beq_iff_eq.mp hclose]
    rfl

/-- A mark is no letter. -/
theorem fold_of_isMark (h : isMark e = true) : fold e = e ∧ e.isAlpha = false := by
  rcases Bool.or_eq_true_iff.mp h with hsep | hclose
  · rcases Bool.or_eq_true_iff.mp hsep with hcolon | hequals
    · rw [beq_iff_eq.mp hcolon]
      exact ⟨rfl, rfl⟩
    · rw [beq_iff_eq.mp hequals]
      exact ⟨rfl, rfl⟩
  · rw [beq_iff_eq.mp hclose]
    exact ⟨rfl, rfl⟩

theorem Shut.edge (h : Shut u) : Edge u := by
  obtain ⟨q, rfl⟩ := h
  exact ⟨q, ']', [], rfl, rfl, fun _ hc => absurd hc List.not_mem_nil⟩

/-- An end of an edge is an edge, or it has only the blanks. -/
theorem Edge.suffix (h : Edge (x ++ t)) : Edge t ∨ ∀ c ∈ t, isWhitespace c = true ∧ c ≠ '\n' := by
  obtain ⟨q, e, b, hu, he, hb⟩ := h
  rcases List.append_eq_append_iff.mp hu with ⟨y, -, ht⟩ | ⟨y, -, hy⟩
  · exact Or.inl ⟨y, e, b, ht, he, hb⟩
  · cases y with
    | nil => exact Or.inl ⟨[], e, b, hy.symm, he, hb⟩
    | cons d y =>
        right
        intro c hc
        apply hb
        rw [(List.cons_eq_cons.mp hy).2]
        exact List.mem_append_right y hc

/-- No word of letters is read over a mark. -/
theorem spelled_mark (hx : ∀ c ∈ x, c.isAlpha = true) (he : isMark e = true) (q y : List Char) :
    spelled sameLetter x (q ++ e :: y) = spelled sameLetter x q := by
  induction x generalizing q with
  | nil => rfl
  | cons c x ih =>
      have hrest := ih fun d hd => hx d (List.mem_cons_of_mem c hd)
      cases q with
      | nil =>
          obtain ⟨hfold, halpha⟩ := fold_of_isMark he
          have hdiff : sameLetter c e = false := by
            rw [sameLetter, hfold, beq_eq_false_iff_ne]
            rintro rfl
            rw [hx e List.mem_cons_self] at halpha
            cases halpha
          rw [List.nil_append, spelled, spelled, hdiff, Bool.false_and]
      | cons d q => rw [List.cons_append, spelled, spelled, hrest q]

theorem alpha_authorization : ∀ c ∈ AUTHORIZATION, c.isAlpha = true := by
  have hall : AUTHORIZATION.all Char.isAlpha = true := rfl
  exact fun c hc => List.all_eq_true.mp hall c hc

theorem alpha_bearer : ∀ c ∈ BEARER, c.isAlpha = true := by
  have hall : BEARER.all Char.isAlpha = true := rfl
  exact fun c hc => List.all_eq_true.mp hall c hc

/-! ## The header pattern at an edge -/

theorem Edge.seam (h : Edge u) (ht : t ≠ []) (hx : x ++ t = u) (hs : Opens s) : Seam t s := by
  rw [← hx] at h
  rcases h.suffix with ⟨q, e, b, rfl, he, hb⟩ | hblank
  · have hlong : ∀ y, spelled sameLetter AUTHORIZATION (q ++ e :: y) = true → 13 ≤ q.length := by
      intro y hspelled
      rw [spelled_mark alpha_authorization he] at hspelled
      exact spelled_length_le hspelled
    refine ⟨hs, ?_, ?_⟩
    · intro hspelled
      have hassoc : q ++ e :: b ++ s = q ++ e :: (b ++ s) := by simp
      rw [hassoc] at hspelled
      have hq := hlong (b ++ s) hspelled
      rw [List.length_append]
      omega
    · intro hspelled hnil
      have hopens : Opens (e :: b) := ⟨e, b, rfl, not_blank_of_isMark he⟩
      rw [List.drop_append_of_le_length (hlong b hspelled), dropWhile_opens _ hopens] at hnil
      exact absurd (List.append_eq_nil_iff.mp hnil).2 (List.cons_ne_nil e b)
  · obtain ⟨c, y, rfl⟩ := List.exists_cons_of_ne_nil ht
    have hnone : ∀ z, spelled sameLetter AUTHORIZATION (c :: z) = false := fun z =>
      spelled_blank authorization_ne_nil no_blank_authorization (hblank c List.mem_cons_self).1
    refine ⟨hs, ?_, ?_⟩
    · intro hspelled
      rw [List.cons_append, hnone] at hspelled
      cases hspelled
    · intro hspelled _
      rw [hnone] at hspelled
      cases hspelled

/-! ## The bearer pattern -/

/-- The match at a place where a word may begin, if there is one. -/
def bearerAt (s : List Char) : Option Found :=
  let next := (s.drop 6).dropWhile isWhitespace
  if spelled sameLetter BEARER s = true ∧ (s.drop 6).takeWhile isWhitespace ≠ [] ∧
      next.takeWhile isTokenChar ≠ [] then
    some {
      kept := []
      dropped := s.take 6 ++ ((s.drop 6).takeWhile isWhitespace ++ next.takeWhile isTokenChar)
      behind := next.dropWhile isTokenChar
    }
  else none

theorem isTokenChar_of_isWhitespace (hc : isWhitespace c = true) : isTokenChar c = false := by
  cases h : isTokenChar c with
  | false => rfl
  | true =>
      have hending := isEnding_of_isTokenChar h
      rw [isEnding, hc] at hending
      cases hending

theorem bearer_first (isWord : Char → Bool) (prev : Option Char) (s : List Char) :
    (bearerPattern isWord).first prev s =
      if wordBoundary isWord prev s.head? then bearerAt s else none := by
  show List.head? (List.flatMap _ [([], s)]) = _
  rw [List.flatMap_singleton, List.map_eq_flatMap]
  show List.head? (List.flatMap _ (runs (seq (look (wordBoundary isWord))
    (seq (spell sameLetter BEARER) (seq (plus isWhitespace) (plus isTokenChar)))) prev s)) = _
  rw [seq_flatMap, runs]
  cases hbound : wordBoundary isWord prev s.head? with
  | false => rfl
  | true =>
      rw [if_pos rfl, if_pos rfl, List.flatMap_singleton, seq_flatMap, runs_spell, bearerAt]
      cases hspelled : spelled sameLetter BEARER s with
      | false =>
          rw [if_neg Bool.false_ne_true, if_neg fun h => Bool.false_ne_true h.1]
          rfl
      | true =>
          rw [if_pos rfl, List.flatMap_singleton, seq_flatMap, plus_flatMap]
          · show (if (s.drop 6).takeWhile isWhitespace = [] then _ else _ : List _).head? = _
            split
            case isTrue hblank =>
              rw [if_neg fun h => h.2.1 hblank]
              rfl
            case isFalse hblank =>
              rw [← List.map_eq_flatMap, List.head?_map]
              show Option.map _ (runs (plus isTokenChar) _ ((s.drop 6).dropWhile isWhitespace)).head? = _
              rw [plus_head?]
              split
              case isTrue htoken =>
                rw [if_neg fun h => h.2.2 htoken]
                rfl
              case isFalse htoken =>
                rw [if_pos ⟨rfl, hblank, htoken⟩]
                rfl
          · intro y d rest hd
            show List.flatMap _ (runs (plus isTokenChar) _ (d :: rest)) = []
            rw [runs_plus_cons, isTokenChar_of_isWhitespace hd, if_neg Bool.false_ne_true]
            rfl

theorem bearerAt_edge (he : isMark e = true) (q y : List Char) :
    bearerAt (q ++ e :: y) =
      if spelled sameLetter BEARER q = true ∧ (q.drop 6).takeWhile isWhitespace ≠ [] ∧
          ((q.drop 6).dropWhile isWhitespace ++ e :: y).takeWhile isTokenChar ≠ [] then
        some {
          kept := []
          dropped := q.take 6 ++ ((q.drop 6).takeWhile isWhitespace ++
            ((q.drop 6).dropWhile isWhitespace ++ e :: y).takeWhile isTokenChar)
          behind := ((q.drop 6).dropWhile isWhitespace ++ e :: y).dropWhile isTokenChar
        }
      else none := by
  have hopens : Opens (e :: y) := ⟨e, y, rfl, not_blank_of_isMark he⟩
  rw [bearerAt, spelled_mark alpha_bearer he]
  cases hspelled : spelled sameLetter BEARER q with
  | false => rw [if_neg fun h => Bool.false_ne_true h.1, if_neg fun h => Bool.false_ne_true h.1]
  | true =>
      have hlong : 6 ≤ q.length := spelled_length_le hspelled
      rw [List.drop_append_of_le_length hlong, List.take_append_of_le_length hlong,
        takeWhile_opens _ hopens, dropWhile_opens _ hopens]

theorem bearerAt_blank (hc : isWhitespace c = true) : bearerAt (c :: s) = none := by
  rw [bearerAt, spelled_blank bearer_ne_nil no_blank_bearer hc]
  exact if_neg fun h => Bool.false_ne_true h.1

/-- How two texts behind an edge are read from a place before it. -/
theorem bearerAt_agree (h : Edge u) (ht : t ≠ []) (hx : x ++ t = u) :
    (∀ s, bearerAt (t ++ s) = none) ∨
      (∃ n ≤ t.length, ∀ s, ∃ found, bearerAt (t ++ s) = some found ∧ found.kept = [] ∧
        found.size = n) ∨
      ∀ s, ∃ found, bearerAt (t ++ s) = some found ∧ found.kept = [] ∧
        found.size = t.length + (s.takeWhile isTokenChar).length := by
  rw [← hx] at h
  rcases h.suffix with ⟨q, e, b, rfl, he, hb⟩ | hblank
  · have hread : ∀ s, bearerAt (q ++ e :: b ++ s) = bearerAt (q ++ e :: (b ++ s)) := fun s => by simp
    have hrun : ∀ s, (q.drop 6).dropWhile isWhitespace ++ e :: (b ++ s) =
        (q.drop 6).dropWhile isWhitespace ++ e :: b ++ s := fun s => by simp
    simp only [hread, bearerAt_edge he, hrun]
    by_cases hspelled : spelled sameLetter BEARER q = true ∧ (q.drop 6).takeWhile isWhitespace ≠ []
    · have hlong : 6 ≤ q.length := spelled_length_le hspelled.1
      have hparts := congrArg List.length
        (List.takeWhile_append_dropWhile (p := isWhitespace) (l := q.drop 6))
      rw [List.length_append, List.length_drop] at hparts
      rcases takeWhile_append_cases isTokenChar ((q.drop 6).dropWhile isWhitespace ++ e :: b) with
        hend | hon
      · by_cases htoken : ((q.drop 6).dropWhile isWhitespace ++ e :: b).takeWhile isTokenChar = []
        · left
          intro s
          rw [hend s]
          exact if_neg fun h => h.2.2 htoken
        · right
          left
          refine ⟨6 + ((q.drop 6).takeWhile isWhitespace).length +
            (((q.drop 6).dropWhile isWhitespace ++ e :: b).takeWhile isTokenChar).length, ?_, ?_⟩
          · have hle := (List.takeWhile_prefix isTokenChar
              (l := (q.drop 6).dropWhile isWhitespace ++ e :: b)).length_le
            simp only [List.length_append, List.length_cons] at hle ⊢
            omega
          · intro s
            rw [hend s, if_pos ⟨hspelled.1, hspelled.2, htoken⟩]
            refine ⟨_, rfl, rfl, ?_⟩
            simp only [Found.size, List.length_append, List.length_take, List.length_nil]
            omega
      · right
        right
        intro s
        have hne : (q.drop 6).dropWhile isWhitespace ++ e :: b ++ s.takeWhile isTokenChar ≠ [] := by simp
        rw [hon s, if_pos ⟨hspelled.1, hspelled.2, hne⟩]
        refine ⟨_, rfl, rfl, ?_⟩
        simp only [Found.size, List.length_append, List.length_take, List.length_nil, List.length_cons]
        omega
    · left
      intro s
      exact if_neg fun h => hspelled ⟨h.1, h.2.1⟩
  · left
    intro s
    obtain ⟨c, y, rfl⟩ := List.exists_cons_of_ne_nil ht
    exact bearerAt_blank (hblank c List.mem_cons_self).1

variable (isWord : Char → Bool)

theorem bearer_agree (h : Edge u) (ht : t ≠ []) (hx : x ++ t = u) (prev : Option Char)
    (s s' : List Char) : Rewrite.Agree (bearerPattern isWord) prev t s s' := by
  have hhead : ∀ y, (t ++ y).head? = t.head? := fun y => List.head?_append_of_ne_nil t ht
  rw [Rewrite.Agree, bearer_first, bearer_first, hhead, hhead]
  cases wordBoundary isWord prev t.head? with
  | false => exact Or.inl ⟨rfl, rfl⟩
  | true =>
      rcases bearerAt_agree h ht hx with hnone | ⟨n, -, hend⟩ | hon
      · exact Or.inl ⟨hnone s, hnone s'⟩
      · obtain ⟨found, hfound, hkept, hsize⟩ := hend s
        obtain ⟨found', hfound', hkept', hsize'⟩ := hend s'
        exact Or.inr ⟨found, found', hfound, hfound', by rw [hkept, hkept'], Or.inl (by omega)⟩
      · obtain ⟨found, hfound, hkept, hsize⟩ := hon s
        obtain ⟨found', hfound', hkept', hsize'⟩ := hon s'
        refine Or.inr ⟨found, found', hfound, hfound', by rw [hkept, hkept'], Or.inr ?_⟩
        omega

theorem bearer_size_le {found : Found} (h : Edge u) (ht : t ≠ []) (hx : x ++ t = u)
    (hfound : (bearerPattern isWord).first prev (t ++ s) = some found) :
    found.size ≤ t.length + (s.takeWhile isTokenChar).length := by
  rw [bearer_first] at hfound
  split at hfound
  · rcases bearerAt_agree h ht hx with hnone | ⟨n, hn, hend⟩ | hon
    · rw [hnone s] at hfound
      cases hfound
    · obtain ⟨found', hfound', -, hsize⟩ := hend s
      rw [hfound'] at hfound
      cases hfound
      omega
    · obtain ⟨found', hfound', -, hsize⟩ := hon s
      rw [hfound'] at hfound
      cases hfound
      omega
  · cases hfound

/-! ## What the first two patterns make of an edge -/

/-- A pattern that begins with a letter and whose replacement ends in a bracket. -/
structure Plain (w : Rewrite) : Prop where
  idle : ∀ c prev s, isWhitespace c = true ∨ isMark c = true → w.first prev (c :: s) = none
  closes : ∃ z, w.replacement = z ++ [']']
  opens : Opens w.replacement

theorem authorization_plain : Plain authorizationPattern where
  closes := ⟨"[REDACTED".toList, rfl⟩
  opens := ⟨'[', "REDACTED]".toList, rfl, rfl⟩
  idle := by
    intro c prev s hc
    rw [first_eq]
    rcases hc with hblank | hmark
    · exact headerAt_blank hblank
    · have hspelled : spelled sameLetter AUTHORIZATION (c :: s) = false :=
        spelled_mark alpha_authorization hmark [] s
      rw [headerAt, hspelled]
      rfl

theorem bearer_plain : Plain (bearerPattern isWord) where
  closes := ⟨"Bearer [REDACTED".toList, rfl⟩
  opens := ⟨'B', "earer [REDACTED]".toList, rfl, rfl⟩
  idle := by
    intro c prev s hc
    rw [bearer_first]
    have hnone : bearerAt (c :: s) = none := by
      rcases hc with hblank | hmark
      · exact bearerAt_blank hblank
      · have hspelled : spelled sameLetter BEARER (c :: s) = false :=
          spelled_mark alpha_bearer hmark [] s
        rw [bearerAt, hspelled]
        exact if_neg fun h => Bool.false_ne_true h.1
    rw [hnone]
    split <;> rfl

/-- What is written up to an edge ends in an edge; it ends in the bracket if a match runs over it, or
if it did before. -/
theorem Plain.edge {w : Rewrite} (hw : Plain w) (h : Edge u) (s : List Char) :
    Edge (w.written 0 none u s) ∧
      (w.overrun 0 none u s ≠ 0 ∨ Shut u → Shut (w.written 0 none u s)) := by
  obtain ⟨q, e, b, rfl, he, hb⟩ := h
  have hidle : ∀ c ∈ e :: b, ∀ prev y, w.first prev (c :: y) = none := by
    intro c hc prev y
    apply hw.idle
    rcases List.mem_cons.mp hc with rfl | hmem
    · exact Or.inr he
    · exact Or.inl (hb c hmem).1
  have hshut : Shut (q ++ e :: b) → b = [] ∧ e = ']' := by
    rintro ⟨y, hy⟩
    rcases List.eq_nil_or_concat b with rfl | ⟨y', d, rfl⟩
    · exact ⟨rfl, List.singleton_inj.mp (List.append_inj' hy rfl).2⟩
    · rw [List.concat_eq_append, ← List.cons_append, ← List.append_assoc] at hy
      have hlast : d = ']' := List.singleton_inj.mp (List.append_inj' hy rfl).2
      have hblank := (hb d (by simp)).1
      rw [hlast] at hblank
      cases hblank
  rw [Rewrite.written_append, Rewrite.overrun_append]
  obtain ⟨z, hz⟩ := hw.closes
  by_cases hover : w.overrun 0 none q (e :: b ++ s) = 0
  · obtain ⟨hwritten, hstop⟩ := Rewrite.written_idle hidle (lastOf none q) s
    rw [hover, hwritten, hstop]
    refine ⟨⟨_, e, b, rfl, he, hb⟩, ?_⟩
    rintro (hne | hbefore)
    · exact absurd rfl hne
    · obtain ⟨rfl, rfl⟩ := hshut hbefore
      exact ⟨_, rfl⟩
  · obtain ⟨y, hy⟩ := Rewrite.written_of_overrun hover (Nat.zero_le _)
    obtain ⟨n, hn⟩ := Nat.exists_eq_succ_of_ne_zero hover
    rw [hy, hz, hn]
    show Edge (y ++ (z ++ [']']) ++ w.written n (some e) b s) ∧
      (w.overrun n (some e) b s ≠ 0 ∨ _ → Shut (y ++ (z ++ [']']) ++ w.written n (some e) b s))
    by_cases hlong : b.length ≤ n
    · rw [Rewrite.written_of_length_le w (some e) b s hlong, List.append_nil, ← List.append_assoc]
      exact ⟨Shut.edge ⟨_, rfl⟩, fun _ => ⟨_, rfl⟩⟩
    · -- The match ends at the mark, and the blanks behind it stay.
      have hlength : (b.take n).length = n := by
        rw [List.length_take]
        omega
      have hblanks : ∀ c ∈ b.drop n, ∀ prev y, w.first prev (c :: y) = none := fun c hc =>
        hidle c (List.mem_cons_of_mem e (List.mem_of_mem_drop hc))
      obtain ⟨hwritten, hstop⟩ := Rewrite.written_idle hblanks (lastOf (some e) (b.take n)) s
      rw [← Rewrite.written_skip, hlength, List.take_append_drop] at hwritten
      rw [← Rewrite.overrun_skip, hlength, List.take_append_drop] at hstop
      rw [hwritten, hstop]
      refine ⟨⟨y ++ z, ']', b.drop n, by simp, rfl, fun c hc => hb c (List.mem_of_mem_drop hc)⟩, ?_⟩
      rintro (hne | hbefore)
      · exact absurd rfl hne
      · rw [(hshut hbefore).1] at hlong
        exact absurd (Nat.zero_le n) hlong

theorem Plain.opens_replaceFrom {w : Rewrite} (hw : Plain w) (hs : Opens s) (prev : Option Char) :
    Opens (w.replaceFrom 0 prev s) := by
  obtain ⟨c, y, rfl, hc⟩ := hs
  cases h : w.first prev (c :: y) with
  | none =>
      rw [Rewrite.replaceFrom_none h]
      exact ⟨c, _, rfl, hc⟩
  | some found =>
      rw [Rewrite.replaceFrom_found h]
      have hsplit := Rewrite.first_split h
      cases hkept : found.kept with
      | nil =>
          obtain ⟨d, z, hz, hd⟩ := hw.opens
          rw [hz]
          exact ⟨d, _, rfl, hd⟩
      | cons d z =>
          rw [hkept] at hsplit
          obtain ⟨rfl, -⟩ := List.cons_eq_cons.mp hsplit
          exact ⟨c, _, rfl, hc⟩

/-- What is left of a text behind an edge still meets what is written up to it. -/
theorem Plain.meets {w : Rewrite} (hw : Plain w) (h : Meets u s) :
    Meets (w.written 0 none u s) (w.replaceFrom (w.overrun 0 none u s) (lastOf none u) s) := by
  obtain ⟨hedge, hshut⟩ := hw.edge h.edge s
  refine ⟨hedge, ?_⟩
  by_cases hover : w.overrun 0 none u s = 0
  · rcases h.joint with hbefore | hopens
    · exact Or.inl (hshut (Or.inr hbefore))
    · rw [hover]
      exact Or.inr (hw.opens_replaceFrom hopens _)
  · exact Or.inl (hshut (Or.inl hover))

/-- What the header pattern makes of a text that ends in an edge, whatever follows it. -/
def headed (u : List Char) : List Char := authorizationPattern.written 0 none u ['x']

/-- What the first two patterns make of it. -/
def lead (u : List Char) : List Char := (bearerPattern isWord).written 0 none (headed u) ['x']

/-- What the header pattern makes of the text behind the edge. -/
def unheaded (u s : List Char) : List Char :=
  authorizationPattern.replaceFrom (authorizationPattern.overrun 0 none u s) (lastOf none u) s

/-- What the first two patterns make of it. -/
def residue (u s : List Char) : List Char :=
  (bearerPattern isWord).replaceFrom
    ((bearerPattern isWord).overrun 0 none (headed u) (unheaded u s)) (lastOf none (headed u))
    (unheaded u s)

theorem Edge.headed_eq (h : Edge u) (hs : Opens s) :
    authorizationPattern.written 0 none u s = headed u :=
  Rewrite.written_agree
    (fun _ _ ht hx => (header_agree (h.seam ht hx hs) (h.seam ht hx ⟨'x', [], rfl, rfl⟩) _).agree)
    (Or.inl rfl)

theorem Edge.meets_headed (h : Edge u) (hs : Opens s) : Meets (headed u) (unheaded u s) := by
  have hmeets := authorization_plain.meets ⟨h, Or.inr hs⟩
  rw [h.headed_eq hs] at hmeets
  exact hmeets

theorem Edge.lead_eq (h : Edge u) (hs : Opens s) :
    (bearerPattern isWord).written 0 none (headed u) (unheaded u s) = lead isWord u :=
  Rewrite.written_agree
    (fun _ _ ht hx => bearer_agree isWord (h.meets_headed hs).edge ht hx _ _ _) (Or.inl rfl)

theorem Edge.meets_lead (h : Edge u) (hs : Opens s) : Meets (lead isWord u) (residue isWord u s) := by
  have hmeets := (bearer_plain isWord).meets (h.meets_headed hs)
  rw [h.lead_eq isWord hs] at hmeets
  exact hmeets

/-- The first two patterns write the text up to an edge in one way, whatever opens behind it. -/
theorem Edge.lead_residue (h : Edge u) (hs : Opens s) :
    (bearerPattern isWord).replaceAll (authorizationPattern.replaceAll (u ++ s)) =
      lead isWord u ++ residue isWord u s := by
  have hfirst : authorizationPattern.replaceAll (u ++ s) = headed u ++ unheaded u s := by
    rw [Rewrite.replaceAll, Rewrite.replaceFrom_append, h.headed_eq hs]
    rfl
  rw [hfirst, Rewrite.replaceAll, Rewrite.replaceFrom_append, h.lead_eq isWord hs]
  rfl

end PackageHarness.Redaction
