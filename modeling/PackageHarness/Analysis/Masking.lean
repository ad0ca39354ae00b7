/-
# PackageHarness.Analysis.Masking — headers and bearer tokens covered with marks.

A text in which every character that the first two patterns drop is covered with a mark has the same
lines, the same separators and the same keys as what the two patterns write: neither a mark nor a
replacement has a line end, a separator or a letter of a key at its ends. So the key pattern takes the
end of a line in the one text if and only if it does in the other.
-/
import PackageHarness.Analysis.KeyValues
import PackageHarness.Text.Masks

namespace PackageHarness.Redaction

open Text Text.Regex

variable {c d : Char} {b q s t u v x y z : List Char} {prev prev' : Option Char} {found : Found}
  {n : Nat}

/-! ## The header pattern -/

theorem valueSplit_parts (hv : Opens v) : (valueSplit v).1 ≠ [] ∧
    ∀ c ∈ (valueSplit v).2.head?, isWhitespace c = true := by
  have hstop : ∀ y : List Char, ∀ c ∈ (y.dropWhile notWhitespace).head?, isWhitespace c = true := by
    intro y c hc
    obtain ⟨l, hl⟩ := List.head?_eq_some_iff.mp hc
    simpa [notWhitespace] using dropWhile_ne_nil hl
  obtain ⟨c, x, rfl, hc⟩ := hv
  rw [valueSplit]
  split
  · next hbearer =>
      refine ⟨?_, hstop _⟩
      intro hnil
      exact hbearer.2.1 (List.append_eq_nil_iff.mp (List.append_eq_nil_iff.mp hnil).1).2
  · refine ⟨?_, hstop _⟩
    rw [List.takeWhile_cons_of_pos (by rw [notWhitespace, hc]; rfl)]
    exact List.cons_ne_nil _ _

/-- The kept part of a header ends in the colon and blanks, and behind the match stands a blank. -/
theorem headerAt_parts (h : headerAt s = some found) :
    ∃ y b, found.kept = y ++ ':' :: b ∧ (∀ c ∈ b, isWhitespace c = true) ∧ found.dropped ≠ [] ∧
      ∀ c ∈ found.behind.head?, isWhitespace c = true := by
  rw [headerAt] at h
  split at h
  case isFalse => cases h
  case isTrue =>
    cases hafter : (s.drop 13).dropWhile isWhitespace with
    | nil =>
        rw [hafter] at h
        cases h
    | cons c rest =>
        rw [hafter, headerFrom] at h
        split at h
        case isFalse => cases h
        case isTrue hcolon =>
          cases h
          obtain ⟨d, v, hv⟩ := List.exists_cons_of_ne_nil hcolon.2
          obtain ⟨hdropped, hbehind⟩ := valueSplit_parts ⟨d, v, hv, dropWhile_ne_nil hv⟩
          exact ⟨s.take 13 ++ (s.drop 13).takeWhile isWhitespace, rest.takeWhile isWhitespace, by simp,
            fun e he => List.mem_takeWhile_imp he, hdropped, hbehind⟩

/-- What the header pattern writes of a text, and the text with its marks. -/
inductive Struck : List Char → List Char → Prop
  | nil : Struck [] []
  | cons (c : Char) {x y : List Char} : Struck x y → Struck (c :: x) (c :: y)
  /-- A value that is replaced, with a blank behind it. -/
  | value {b : List Char} (n : Nat) {e : Char} {x y : List Char} :
      (∀ c ∈ b, isWhitespace c = true) → isWhitespace e = true → Struck x y →
      Struck (':' :: (b ++ (REDACTED.toList ++ e :: x)))
        (':' :: (b ++ (List.replicate (n + 1) '*' ++ e :: y)))
  /-- A value that goes on behind the text. -/
  | last {b : List Char} (n : Nat) : (∀ c ∈ b, isWhitespace c = true) →
      Struck (':' :: (b ++ REDACTED.toList)) (':' :: (b ++ List.replicate n '*'))

theorem Struck.append (h : Struck x y) (q : List Char) : Struck (q ++ x) (q ++ y) := by
  induction q with
  | nil => exact h
  | cons c q ih => exact Struck.cons c ih

theorem Struck.refl (x : List Char) : Struck x x := by
  have h := Struck.nil.append x
  rwa [List.append_nil] at h

theorem authorization_replacement : authorizationPattern.replacement = REDACTED.toList := rfl

/-- The header pattern, on a text behind which one character stands. -/
theorem struck_written (prev : Option Char) (u : List Char) (d : Char) :
    Struck (authorizationPattern.written 0 prev u [d])
      (authorizationPattern.masked '*' 0 prev u [d]) := by
  induction hu : u.length using Nat.strong_induction_on generalizing u prev with
  | _ m ih =>
      cases u with
      | nil => exact Struck.nil
      | cons c u =>
          cases hfirst : authorizationPattern.first prev (c :: u ++ [d]) with
          | none =>
              rw [Rewrite.written, Rewrite.masked, hfirst]
              exact Struck.cons c (ih u.length (by rw [← hu]; exact Nat.lt_succ_self _) _ u rfl)
          | some found =>
              have hheader := hfirst
              rw [first_eq] at hheader
              obtain ⟨y, b, hkept, hb, hdropped, hbehind⟩ := headerAt_parts hheader
              have hsplit := Rewrite.first_split hfirst
              have hne : c :: u ≠ [] := List.cons_ne_nil c u
              by_cases hlong : (c :: u).length ≤ found.size
              · -- The value goes on to the end.
                have hpos := List.length_pos_of_ne_nil hdropped
                have hlength := congrArg List.length hsplit
                have hshort : found.kept.length ≤ (c :: u).length := by
                  simp only [List.length_append, List.length_singleton] at hlength
                  omega
                rw [Rewrite.written_through hfirst hne hlong, Rewrite.masked_through hfirst hne hlong,
                  List.take_append, List.take_of_length_le hshort, List.take_replicate, hkept]
                have hlast := (Struck.last (min ((c :: u).length - (y ++ ':' :: b).length)
                  found.dropped.length) hb).append y
                simpa [authorization_replacement] using hlast
              · obtain ⟨v, hv, hbehind'⟩ := Rewrite.first_inside hfirst (Nat.le_of_not_le hlong)
                have htaken : (found.kept ++ found.dropped).length = found.size := List.length_append
                cases v with
                | nil =>
                    rw [hv, List.append_nil, htaken] at hlong
                    exact absurd (Nat.le_refl _) hlong
                | cons e v =>
                    have he : isWhitespace e = true := by
                      apply hbehind
                      rw [hbehind']
                      rfl
                    have hidle : ∀ prev, authorizationPattern.first prev (e :: v ++ [d]) = none :=
                      fun prev => authorization_plain.idle e prev _ (Or.inl he)
                    rw [hv] at hfirst hu ⊢
                    rw [Rewrite.written_found hfirst htaken, Rewrite.masked_found hfirst htaken,
                      Rewrite.written, Rewrite.masked, hidle, hkept]
                    have hshorter : v.length < m := by
                      rw [← hu]
                      simp only [List.length_append, List.length_cons]
                      omega
                    obtain ⟨n, hn⟩ := Nat.exists_eq_succ_of_ne_zero
                      (Nat.ne_of_gt (List.length_pos_of_ne_nil hdropped))
                    have hlater := (Struck.value n hb he
                      (ih v.length hshorter (some e) v rfl)).append y
                    rw [hn]
                    simpa [authorization_replacement] using hlater

/-! ## The bearer pattern -/

/-- Behind a common beginning both texts end, or both have a colon. -/
theorem Struck.split (h : Struck x y) : ∃ q x' y', x = q ++ x' ∧ y = q ++ y' ∧ Struck x' y' ∧
    (x' = [] ∧ y' = [] ∨ ∃ z z', x' = ':' :: z ∧ y' = ':' :: z') := by
  induction h with
  | nil => exact ⟨[], [], [], rfl, rfl, Struck.nil, Or.inl ⟨rfl, rfl⟩⟩
  | cons c _ ih =>
      obtain ⟨q, x', y', rfl, rfl, hstruck, hend⟩ := ih
      exact ⟨c :: q, x', y', rfl, rfl, hstruck, hend⟩
  | value n hb he hlater _ =>
      exact ⟨[], _, _, rfl, rfl, Struck.value n hb he hlater, Or.inr ⟨_, _, rfl, rfl⟩⟩
  | last n hb => exact ⟨[], _, _, rfl, rfl, Struck.last n hb, Or.inr ⟨_, _, rfl, rfl⟩⟩

theorem takeWhile_cut {p : Char → Bool} (hc : p c = false) (x y : List Char) :
    (x ++ c :: y).takeWhile p = x.takeWhile p := by
  induction x with
  | nil => exact List.takeWhile_cons_of_neg (by simp [hc])
  | cons d x ih => rw [List.cons_append, List.takeWhile_cons, List.takeWhile_cons, ih]

theorem isTokenChar_colon : isTokenChar ':' = false := by decide

/-- A bearer token ends before a colon, and what follows that does not matter. -/
theorem bearerAt_colon (q y y' : List Char) :
    (bearerAt (q ++ ':' :: y) = none ∧ bearerAt (q ++ ':' :: y') = none) ∨
      ∃ found found', bearerAt (q ++ ':' :: y) = some found ∧ bearerAt (q ++ ':' :: y') = some found' ∧
        found.kept = [] ∧ found'.kept = [] ∧ found'.dropped = found.dropped ∧ found.dropped <+: q := by
  rw [bearerAt_edge rfl, bearerAt_edge rfl, takeWhile_cut isTokenChar_colon,
    takeWhile_cut isTokenChar_colon]
  split
  · refine Or.inr ⟨_, _, rfl, rfl, rfl, rfl, rfl, ?_⟩
    have hblanks := List.takeWhile_append_dropWhile (p := isWhitespace) (l := q.drop 6)
    have htoken := List.takeWhile_append_dropWhile (p := isTokenChar)
      (l := (q.drop 6).dropWhile isWhitespace)
    refine ⟨((q.drop 6).dropWhile isWhitespace).dropWhile isTokenChar, ?_⟩
    rw [List.append_assoc, List.append_assoc, htoken, hblanks, List.take_append_drop]
  · exact Or.inl ⟨rfl, rfl⟩

variable (isWord : Char → Bool)

/-- The bearer pattern finds the same in both texts. -/
theorem Struck.bearer_first (h : Struck x y) (hx : x ≠ []) (prev : Option Char) (d : Char) :
    ((bearerPattern isWord).first prev (x ++ [d]) = none ∧
        (bearerPattern isWord).first prev (y ++ [d]) = none) ∨
      ∃ found found', (bearerPattern isWord).first prev (x ++ [d]) = some found ∧
        (bearerPattern isWord).first prev (y ++ [d]) = some found' ∧
        found.kept = [] ∧ found'.kept = [] ∧ found'.dropped = found.dropped ∧
        (x.length ≤ found.dropped.length ∧ y.length ≤ found.dropped.length ∨
          ∃ x' y', x = found.dropped ++ x' ∧ y = found.dropped ++ y' ∧ Struck x' y') := by
  obtain ⟨q, x', y', rfl, rfl, hlater, ⟨rfl, rfl⟩ | ⟨z, z', rfl, rfl⟩⟩ := h.split
  · cases hfirst : (bearerPattern isWord).first prev (q ++ [] ++ [d]) with
    | none => exact Or.inl ⟨rfl, rfl⟩
    | some found =>
        have hkept : found.kept = [] := by
          obtain ⟨left, hleft, right, -, rfl⟩ := Rewrite.first_sound hfirst
          rw [List.mem_singleton.mp hleft]
        refine Or.inr ⟨found, found, rfl, rfl, hkept, hkept, rfl, ?_⟩
        by_cases hlong : (q ++ []).length ≤ found.dropped.length
        · exact Or.inl ⟨hlong, hlong⟩
        · have hshort : found.size ≤ (q ++ []).length := by
            rw [Found.size, hkept, List.length_nil, Nat.zero_add]
            exact Nat.le_of_lt (Nat.lt_of_not_le hlong)
          obtain ⟨v, hv, -⟩ := Rewrite.first_inside hfirst hshort
          rw [hkept, List.nil_append] at hv
          exact Or.inr ⟨v, v, hv, hv, Struck.refl v⟩
  · have hhead : ∀ z : List Char, (q ++ ':' :: z).head? = (q ++ [':']).head? := by
      intro z
      cases q <;> rfl
    have htext : ∀ z : List Char, q ++ ':' :: z ++ [d] = q ++ ':' :: (z ++ [d]) := fun z => by simp
    rw [htext, htext, Redaction.bearer_first, Redaction.bearer_first, hhead (z ++ [d]),
      hhead (z' ++ [d])]
    split
    case isFalse => exact Or.inl ⟨rfl, rfl⟩
    case isTrue =>
      rcases bearerAt_colon q (z ++ [d]) (z' ++ [d]) with hnone |
        ⟨found, found', hfound, hfound', hkept, hkept', hdropped, ⟨p, rfl⟩⟩
      · exact Or.inl hnone
      · refine Or.inr ⟨found, found', hfound, hfound', hkept, hkept', hdropped, Or.inr ?_⟩
        exact ⟨p ++ ':' :: z, p ++ ':' :: z', by simp, by simp, hlater.append p⟩

/-- The two replacements, and nothing else. -/
def IsReplacement (r : List Char) : Prop := r = REDACTED.toList ∨ r = "Bearer [REDACTED]".toList

/-- What the first two patterns write of a text, and the text with their marks. -/
inductive Alike : List Char → List Char → Prop
  | nil : Alike [] []
  | cons (c : Char) {x y : List Char} : Alike x y → Alike (c :: x) (c :: y)
  | block {r : List Char} (n : Nat) {x y : List Char} : IsReplacement r → Alike x y →
      Alike (r ++ x) (List.replicate (n + 1) '*' ++ y)

theorem Alike.append (h : Alike x y) (q : List Char) : Alike (q ++ x) (q ++ y) := by
  induction q with
  | nil => exact h
  | cons c q ih => exact Alike.cons c ih

/-- Only the letter `b` begins a bearer token. -/
theorem bearer_idle (hc : sameLetter 'b' c = false) (prev : Option Char) (s : List Char) :
    (bearerPattern isWord).first prev (c :: s) = none := by
  have hspelled : spelled sameLetter BEARER (c :: s) = false := by
    show (sameLetter 'b' c && _) = false
    rw [hc, Bool.false_and]
  have hnone : bearerAt (c :: s) = none := by
    rw [bearerAt, hspelled]
    exact if_neg fun h => Bool.false_ne_true h.1
  rw [Redaction.bearer_first, hnone]
  split <;> rfl

theorem not_b_of_blank (hc : isWhitespace c = true) : sameLetter 'b' c = false := by
  rw [sameLetter, fold_of_isWhitespace hc, beq_eq_false_iff_ne]
  rintro rfl
  cases hc

theorem not_b_redacted : ∀ c ∈ REDACTED.toList, sameLetter 'b' c = false := by
  have hall : REDACTED.toList.all (fun c => !sameLetter 'b' c) = true := by decide
  intro c hc
  simpa using List.all_eq_true.mp hall c hc

theorem not_b_mark (n : Nat) : ∀ c ∈ List.replicate n '*', sameLetter 'b' c = false := by
  intro c hc
  rw [List.eq_of_mem_replicate hc]
  rfl

/-- A value without the letter `b` stays. -/
theorem idle_value {r : List Char} (hb : ∀ c ∈ b, isWhitespace c = true)
    (hr : ∀ c ∈ r, sameLetter 'b' c = false) :
    ∀ c ∈ ':' :: (b ++ r), ∀ prev s, (bearerPattern isWord).first prev (c :: s) = none := by
  have hall : ∀ c ∈ ':' :: (b ++ r), sameLetter 'b' c = false := by
    simp only [List.forall_mem_cons, List.forall_mem_append]
    exact ⟨rfl, fun c hc => not_b_of_blank (hb c hc), hr⟩
  exact fun c hc => bearer_idle isWord (hall c hc)

theorem value_append {e : Char} {r : List Char} (b z : List Char) :
    ':' :: (b ++ (r ++ e :: z)) = ':' :: (b ++ (r ++ [e])) ++ z := by
  simp

theorem lastOf_value {e : Char} {r : List Char} (b : List Char) (prev : Option Char) :
    lastOf prev (':' :: (b ++ (r ++ [e]))) = some e := by
  rw [← List.append_assoc, ← List.cons_append, lastOf_concat]

theorem written_value {e : Char} {r : List Char} (hb : ∀ c ∈ b, isWhitespace c = true)
    (hr : ∀ c ∈ r, sameLetter 'b' c = false) (he : isWhitespace e = true) (prev : Option Char)
    (x s : List Char) : (bearerPattern isWord).written 0 prev (':' :: (b ++ (r ++ e :: x))) s =
      ':' :: (b ++ (r ++ e :: (bearerPattern isWord).written 0 (some e) x s)) := by
  have hr' : ∀ c ∈ r ++ [e], sameLetter 'b' c = false :=
    List.forall_mem_append.mpr ⟨hr, List.forall_mem_singleton.mpr (not_b_of_blank he)⟩
  rw [value_append, Rewrite.written_idle_append (idle_value isWord hb hr'), lastOf_value,
    ← value_append]

theorem masked_value {e : Char} {r : List Char} (hb : ∀ c ∈ b, isWhitespace c = true)
    (hr : ∀ c ∈ r, sameLetter 'b' c = false) (he : isWhitespace e = true) (prev : Option Char)
    (x s : List Char) : (bearerPattern isWord).masked '*' 0 prev (':' :: (b ++ (r ++ e :: x))) s =
      ':' :: (b ++ (r ++ e :: (bearerPattern isWord).masked '*' 0 (some e) x s)) := by
  have hr' : ∀ c ∈ r ++ [e], sameLetter 'b' c = false :=
    List.forall_mem_append.mpr ⟨hr, List.forall_mem_singleton.mpr (not_b_of_blank he)⟩
  rw [value_append, Rewrite.masked_idle_append '*' (idle_value isWord hb hr'), lastOf_value,
    ← value_append]

/-- A value that goes on behind the text, without a match. -/
theorem alike_last {b : List Char} (n : Nat) (hb : ∀ c ∈ b, isWhitespace c = true) (prev : Option Char)
    (s : List Char) :
    ∃ p r, (bearerPattern isWord).written 0 prev (':' :: (b ++ REDACTED.toList)) s = p ++ r ∧
      (r = [] ∨ IsReplacement r) ∧
      Alike p ((bearerPattern isWord).masked '*' 0 prev (':' :: (b ++ List.replicate n '*')) s) := by
  have hmasked := Rewrite.masked_idle_append '*' (idle_value isWord hb (not_b_mark n)) prev [] s
  rw [List.append_nil, Rewrite.masked, List.append_nil] at hmasked
  rw [(Rewrite.written_idle (idle_value isWord hb not_b_redacted) prev s).1, hmasked]
  cases n with
  | zero =>
      refine ⟨':' :: b, REDACTED.toList, rfl, Or.inr (Or.inl rfl), ?_⟩
      have hsame := Alike.nil.append (':' :: b)
      rw [List.append_nil] at hsame
      show Alike (':' :: b) (':' :: b ++ [])
      rwa [List.append_nil]
  | succ n =>
      refine ⟨':' :: (b ++ REDACTED.toList), [], (List.append_nil _).symm, Or.inl rfl, ?_⟩
      have hblock := (Alike.block n (Or.inl rfl) Alike.nil).append (':' :: b)
      rwa [List.append_nil, List.append_nil] at hblock

/-- The bearer pattern makes them alike, up to a replacement at the end whose value stands behind the
text. -/
theorem Struck.alike (h : Struck x y) (prev : Option Char) (d : Char) :
    ∃ p r, (bearerPattern isWord).written 0 prev x [d] = p ++ r ∧ (r = [] ∨ IsReplacement r) ∧
      Alike p ((bearerPattern isWord).masked '*' 0 prev y [d]) := by
  induction hx : x.length using Nat.strong_induction_on generalizing x y prev with
  | _ m ih =>
      by_cases hne : x = []
      · subst hne
        cases h
        exact ⟨[], [], rfl, Or.inl rfl, Alike.nil⟩
      · rcases h.bearer_first isWord hne prev d with ⟨hnone, hnone'⟩ |
          ⟨found, found', hfound, hfound', hkept, hkept', hdropped, hsame⟩
        · cases h with
          | nil => exact absurd rfl hne
          | @cons c x y hlater =>
              obtain ⟨p, r, hwritten, hr, halike⟩ :=
                ih x.length (by rw [← hx]; exact Nat.lt_succ_self _) hlater (some c) rfl
              rw [Rewrite.written, Rewrite.masked, hnone, hnone']
              exact ⟨c :: p, r, congrArg (c :: ·) hwritten, hr, Alike.cons c halike⟩
          | @value b n e x y hb he hlater =>
              have hshorter : x.length < m := by
                rw [← hx]
                simp only [List.length_append, List.length_cons]
                omega
              obtain ⟨p, r, hwritten, hr, halike⟩ := ih x.length hshorter hlater (some e) rfl
              rw [written_value isWord hb not_b_redacted he,
                masked_value isWord hb (not_b_mark (n + 1)) he]
              refine ⟨':' :: b ++ (REDACTED.toList ++ e :: p), r, by rw [hwritten]; simp, hr, ?_⟩
              exact (Alike.block n (Or.inl rfl) (Alike.cons e halike)).append (':' :: b)
          | last n hb => exact alike_last isWord n hb prev [d]
        · have hsize : found.size = found.dropped.length := by
            rw [Found.size, hkept, List.length_nil, Nat.zero_add]
          have hsize' : found'.size = found.dropped.length := by
            rw [Found.size, hkept', hdropped, List.length_nil, Nat.zero_add]
          have hy : y ≠ [] := by
            rintro rfl
            cases h
            exact hne rfl
          rcases hsame with ⟨hlong, hlong'⟩ | ⟨x', y', rfl, rfl, hlater⟩
          · rw [Rewrite.written_through hfound hne (by omega),
              Rewrite.masked_through hfound' hy (by omega), hkept, hkept', List.nil_append, List.nil_append, List.take_replicate]
            obtain ⟨n, hn⟩ : ∃ n, min y.length found'.dropped.length = n + 1 := by
              apply Nat.exists_eq_succ_of_ne_zero
              have hypos := List.length_pos_of_ne_nil hy
              rw [hdropped]
              omega
            have hblock := Alike.block n (Or.inr rfl) Alike.nil
            rw [List.append_nil, List.append_nil] at hblock
            rw [hn]
            exact ⟨_, [], (List.append_nil _).symm, Or.inl rfl, hblock⟩
          · have hpos := Rewrite.first_size_pos hfound
            obtain ⟨n, hn⟩ := Nat.exists_eq_succ_of_ne_zero (Nat.ne_of_gt (hsize ▸ hpos))
            rw [Rewrite.written_found hfound hsize.symm, Rewrite.masked_found hfound' hsize'.symm,
              hkept, hkept', hdropped, hn]
            have hshorter : x'.length < m := by
              rw [← hx, List.length_append]
              omega
            obtain ⟨p, r, hwritten, hr, halike⟩ := ih x'.length hshorter hlater _ rfl
            refine ⟨_ ++ p, r, ?_, hr, Alike.block n (Or.inr rfl) halike⟩
            rw [hwritten]
            exact (List.append_assoc _ _ _).symm

end PackageHarness.Redaction
