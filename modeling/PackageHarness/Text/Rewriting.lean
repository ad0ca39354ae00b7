/-
# PackageHarness.Text.Rewriting — replacing every match of a pattern in a text.

The only group of a pattern stands at its start, and the replacement keeps it. A text is read from
left to right; a match is replaced as a whole, and the search goes on behind it. `written` is what
has been written when a beginning of the text is read, and `overrun` how far a match then reaches
into the text behind it. Both may depend on that text, so two texts with the same beginning are
compared place by place.

Nothing in this module mentions a particular program.
-/
import PackageHarness.Text.Regex

namespace PackageHarness.Text

/-- What is found at a place: the text of the group, the rest of the match, and the text behind. -/
structure Found where
  kept : List Char
  dropped : List Char
  behind : List Char

/-- The number of characters that a match takes. -/
def Found.size (found : Found) : Nat := found.kept.length + found.dropped.length

/-- A pattern with one group, at its start, and the replacement: the group and a fixed text. -/
structure Rewrite where
  group : Regex
  rest : Regex
  replacement : List Char
  /-- The empty text is no match. -/
  proper : (group.seq rest).nullable = false

namespace Rewrite

variable (w : Rewrite)

def first (prev : Option Char) (s : List Char) : Option Found :=
  ((w.group.runs prev s).flatMap fun run =>
    (w.rest.runs (lastOf prev run.1) run.2).map fun later =>
      { kept := run.1, dropped := later.1, behind := later.2 : Found }).head?

/-- The rewritten text; the first `skip` characters belong to a match that is already replaced. -/
def replaceFrom : (skip : Nat) → (prev : Option Char) → List Char → List Char
  | _, _, [] => []
  | skip + 1, _, c :: s => replaceFrom skip (some c) s
  | 0, prev, c :: s =>
      match w.first prev (c :: s) with
      | some found => found.kept ++ w.replacement ++ replaceFrom (found.size - 1) (some c) s
      | none => c :: replaceFrom 0 (some c) s

def replaceAll (s : List Char) : List Char := w.replaceFrom 0 none s

/-- What the rewriting writes while it reads `u`, if `s` follows. -/
def written : (skip : Nat) → (prev : Option Char) → (u s : List Char) → List Char
  | _, _, [], _ => []
  | skip + 1, _, c :: u, s => written skip (some c) u s
  | 0, prev, c :: u, s =>
      match w.first prev (c :: u ++ s) with
      | some found => found.kept ++ w.replacement ++ written (found.size - 1) (some c) u s
      | none => c :: written 0 (some c) u s

/-- How many characters of `s` the matches take that begin in `u`. -/
def overrun : (skip : Nat) → (prev : Option Char) → (u s : List Char) → Nat
  | skip, _, [], _ => skip
  | skip + 1, _, c :: u, s => overrun skip (some c) u s
  | 0, prev, c :: u, s =>
      match w.first prev (c :: u ++ s) with
      | some found => overrun (found.size - 1) (some c) u s
      | none => overrun 0 (some c) u s

end Rewrite

/-! ## The rewriting, part by part -/

namespace Rewrite

variable {w : Rewrite} {prev : Option Char} {c : Char} {s u v x : List Char} {skip : Nat}
  {found : Found}

theorem first_sound (h : w.first prev s = some found) :
    ∃ left ∈ w.group.runs prev s, ∃ right ∈ w.rest.runs (lastOf prev left.1) left.2,
      found = ⟨left.1, right.1, right.2⟩ := by
  obtain ⟨left, hleft, hfound⟩ := List.mem_flatMap.mp (List.mem_of_mem_head? h)
  obtain ⟨right, hright, heq⟩ := List.mem_map.mp hfound
  exact ⟨left, hleft, right, hright, heq.symm⟩

theorem first_split (h : w.first prev s = some found) :
    s = found.kept ++ found.dropped ++ found.behind := by
  obtain ⟨left, hleft, right, hright, rfl⟩ := first_sound h
  rw [Regex.append_of_mem_runs hleft, Regex.append_of_mem_runs hright, List.append_assoc]

theorem first_size_pos (h : w.first prev s = some found) : 0 < found.size := by
  obtain ⟨left, hleft, right, hright, rfl⟩ := first_sound h
  have hmem := Regex.mem_seq.mpr ⟨left, hleft, right, hright, rfl⟩
  have hne := Regex.ne_nil_of_mem_runs w.proper hmem
  rw [Found.size, ← List.length_append]
  exact List.length_pos_of_ne_nil hne

theorem replaceFrom_none (h : w.first prev (c :: s) = none) :
    w.replaceFrom 0 prev (c :: s) = c :: w.replaceFrom 0 (some c) s := by
  rw [replaceFrom, h]

theorem replaceFrom_skip (w : Rewrite) (prev : Option Char) (x s : List Char) :
    w.replaceFrom x.length prev (x ++ s) = w.replaceFrom 0 (lastOf prev x) s := by
  induction x generalizing prev with
  | nil => rfl
  | cons c x ih => exact ih (some c)

theorem replaceFrom_found (h : w.first prev s = some found) :
    w.replaceFrom 0 prev s = found.kept ++ w.replacement ++
      w.replaceFrom 0 (lastOf prev (found.kept ++ found.dropped)) found.behind := by
  have hsplit := first_split h
  have hpos := first_size_pos h
  rw [Found.size, ← List.length_append] at hpos
  obtain ⟨c, x, hx⟩ := List.exists_cons_of_length_pos hpos
  have hs : s = c :: (x ++ found.behind) := by rw [hsplit, hx, List.cons_append]
  have hsize : found.size - 1 = x.length := by
    rw [Found.size, ← List.length_append, hx, List.length_cons, Nat.add_sub_cancel]
  subst hs
  rw [replaceFrom, h]
  show found.kept ++ w.replacement ++ w.replaceFrom (found.size - 1) (some c) _ = _
  rw [hsize, replaceFrom_skip, hx]
  rfl

/-- The rewriting of a text is what is written while its beginning is read, and the rewriting of what
the matches of the beginning leave. -/
theorem replaceFrom_append (w : Rewrite) (skip : Nat) (prev : Option Char) (u s : List Char) :
    w.replaceFrom skip prev (u ++ s) = w.written skip prev u s ++
      w.replaceFrom (w.overrun skip prev u s) (lastOf prev u) s := by
  induction u generalizing skip prev with
  | nil => rfl
  | cons c u ih =>
      cases skip with
      | succ skip => exact ih skip (some c)
      | zero =>
          rw [List.cons_append, replaceFrom, written, overrun]
          show _ = _ ++ w.replaceFrom _ (lastOf (some c) u) s
          rw [List.cons_append]
          split
          · rw [ih]
            simp only [List.append_assoc]
          · rw [ih, List.cons_append]

theorem written_append (w : Rewrite) (skip : Nat) (prev : Option Char) (u v s : List Char) :
    w.written skip prev (u ++ v) s = w.written skip prev u (v ++ s) ++
      w.written (w.overrun skip prev u (v ++ s)) (lastOf prev u) v s := by
  induction u generalizing skip prev with
  | nil => rfl
  | cons c u ih =>
      cases skip with
      | succ skip => exact ih skip (some c)
      | zero =>
          rw [List.cons_append, written, written, overrun]
          show _ = _ ++ w.written _ (lastOf (some c) u) v s
          rw [List.cons_append, List.cons_append, List.append_assoc]
          split
          · rw [ih]
            simp only [List.append_assoc]
          · rw [ih, List.cons_append]

theorem overrun_append (w : Rewrite) (skip : Nat) (prev : Option Char) (u v s : List Char) :
    w.overrun skip prev (u ++ v) s =
      w.overrun (w.overrun skip prev u (v ++ s)) (lastOf prev u) v s := by
  induction u generalizing skip prev with
  | nil => rfl
  | cons c u ih =>
      cases skip with
      | succ skip => exact ih skip (some c)
      | zero =>
          rw [List.cons_append, overrun, overrun]
          show _ = w.overrun _ (lastOf (some c) u) v s
          rw [List.cons_append, List.cons_append, List.append_assoc]
          split
          · rw [ih]
          · rw [ih]

/-- If every match that may begin in `u` takes `k` characters behind it at the most, so do they all
together. -/
theorem overrun_le {k : Nat} (hskip : skip ≤ u.length + k)
    (h : ∀ prev t, t ≠ [] → t <:+ u → ∀ found, w.first prev (t ++ s) = some found →
      found.size ≤ t.length + k) : w.overrun skip prev u s ≤ k := by
  induction u generalizing skip prev with
  | nil =>
      rw [List.length_nil, Nat.zero_add] at hskip
      exact hskip
  | cons c u ih =>
      have hlater : ∀ prev t, t ≠ [] → t <:+ u → ∀ found, w.first prev (t ++ s) = some found →
          found.size ≤ t.length + k :=
        fun prev t hne ht => h prev t hne (ht.trans (List.suffix_cons c u))
      rw [List.length_cons] at hskip
      cases skip with
      | succ skip =>
          have hskip' : skip ≤ u.length + k := by omega
          exact ih hskip' hlater
      | zero =>
          rw [overrun]
          split
          · next found hfound =>
              have hsize := h prev (c :: u) (List.cons_ne_nil c u) (List.suffix_refl _) found hfound
              rw [List.length_cons] at hsize
              have hskip' : found.size - 1 ≤ u.length + k := by omega
              exact ih hskip' hlater
          · exact ih (Nat.zero_le _) hlater

theorem overrun_of_length_le (w : Rewrite) (prev : Option Char) (u s : List Char)
    (h : u.length ≤ skip) : w.overrun skip prev u s = skip - u.length := by
  induction u generalizing skip prev with
  | nil => rfl
  | cons c u ih =>
      rw [List.length_cons] at h
      cases skip with
      | zero => omega
      | succ skip =>
          rw [List.length_cons, Nat.add_sub_add_right]
          exact ih (some c) (by omega)

theorem written_of_length_le (w : Rewrite) (prev : Option Char) (u s : List Char)
    (h : u.length ≤ skip) : w.written skip prev u s = [] := by
  induction u generalizing skip prev with
  | nil => rfl
  | cons c u ih =>
      rw [List.length_cons] at h
      cases skip with
      | zero => omega
      | succ skip => exact ih (some c) (by omega)

/-- If the matches of a text end within it, what is written comes from the text and from the
replacement. -/
theorem mem_written (hskip : skip ≤ u.length) (hend : w.overrun skip prev u s = 0)
    (h : c ∈ w.written skip prev u s) : c ∈ u ∨ c ∈ w.replacement := by
  induction u generalizing skip prev with
  | nil => cases h
  | cons d u ih =>
      cases skip with
      | succ skip => exact (ih (Nat.le_of_succ_le_succ hskip) hend h).imp_left (List.mem_cons_of_mem d)
      | zero =>
          rw [written] at h
          rw [overrun] at hend
          split at h
          · next found hfound =>
              rw [hfound] at hend
              change w.overrun (found.size - 1) (some d) u s = 0 at hend
              have hsize : found.size - 1 ≤ u.length := by
                by_contra hlong
                have hlong' : u.length ≤ found.size - 1 := by omega
                have hover := overrun_of_length_le w (some d) u s hlong'
                omega
              have hkept : found.kept <+: d :: u := by
                have hbegins : found.kept <+: d :: u ++ s := by
                  rw [first_split hfound, List.append_assoc]
                  exact List.prefix_append _ _
                have hlength : found.kept.length ≤ (d :: u).length := by
                  rw [Found.size] at hsize
                  rw [List.length_cons]
                  omega
                exact List.prefix_of_prefix_length_le hbegins (List.prefix_append _ _) hlength
              rcases List.mem_append.mp h with hfirst | hlater
              · exact (List.mem_append.mp hfirst).imp_left fun hc => hkept.subset hc
              · exact (ih hsize hend hlater).imp_left (List.mem_cons_of_mem d)
          · next hnone =>
              rw [hnone] at hend
              rcases List.mem_cons.mp h with rfl | hlater
              · exact Or.inl List.mem_cons_self
              · exact (ih (Nat.zero_le _) hend hlater).imp_left (List.mem_cons_of_mem d)

end Rewrite

/-! ## The end of a rewritten text -/

namespace Rewrite

variable {w : Rewrite} {prev : Option Char} {c : Char} {u s : List Char} {skip : Nat}

theorem replaceFrom_eq_written (w : Rewrite) (skip : Nat) (prev : Option Char) (s : List Char) :
    w.replaceFrom skip prev s = w.written skip prev s [] := by
  have h := replaceFrom_append w skip prev s []
  rw [List.append_nil] at h
  rw [h, replaceFrom, List.append_nil]

theorem written_ne_nil (hw : w.replacement ≠ []) (hu : u ≠ []) : w.written 0 prev u s ≠ [] := by
  cases u with
  | nil => exact absurd rfl hu
  | cons c u =>
      rw [written]
      split
      · next found _ =>
          intro h
          exact hw (List.append_eq_nil_iff.mp (List.append_eq_nil_iff.mp h).1).2
      · exact List.cons_ne_nil c _

/-- The last character is the text's own or the last of the replacement. -/
theorem getLast?_written (hw : w.replacement ≠ []) (h : c ∈ (w.written skip prev u s).getLast?) :
    c ∈ u.getLast? ∨ c ∈ w.replacement.getLast? := by
  induction u generalizing skip prev with
  | nil => cases h
  | cons d u ih =>
      have hlater : ∀ {skip prev}, c ∈ (w.written skip prev u s).getLast? →
          c ∈ (d :: u).getLast? ∨ c ∈ w.replacement.getLast? := by
        intro skip prev hc
        rcases ih hc with hlast | hlast
        · left
          rw [List.getLast?_cons, hlast]
          rfl
        · exact Or.inr hlast
      cases skip with
      | succ skip => exact hlater h
      | zero =>
          rw [written] at h
          split at h
          · next found _ =>
              rw [List.getLast?_append] at h
              rcases Option.or_eq_some_iff.mp h with hrest | ⟨-, hmark⟩
              · exact hlater hrest
              · right
                rw [List.getLast?_append] at hmark
                rcases Option.or_eq_some_iff.mp hmark with hlast | ⟨hnone, -⟩
                · exact hlast
                · exact absurd (List.getLast?_eq_none_iff.mp hnone) hw
          · rw [List.getLast?_cons] at h
            cases hrest : (w.written 0 (some d) u s).getLast? with
            | some e =>
                rw [hrest] at h
                exact hlater (hrest.trans h)
            | none =>
                -- Nothing is written behind a character only at the end.
                have hu : u = [] := by
                  by_contra hu
                  exact written_ne_nil hw hu (List.getLast?_eq_none_iff.mp hrest)
                rw [hrest] at h
                rw [hu]
                exact Or.inl h

theorem getLast?_replaceAll (hw : w.replacement ≠ []) (h : c ∈ (w.replaceAll s).getLast?) :
    c ∈ s.getLast? ∨ c ∈ w.replacement.getLast? := by
  rw [replaceAll, replaceFrom_eq_written] at h
  exact getLast?_written hw h

/-- A match that ends with a character of a class takes nothing of a text without one. -/
theorem size_le_of_endsIn {p : Char → Bool} {found : Found} {t : List Char}
    (hp : Regex.EndsIn p w.rest) (hs : ∀ c ∈ s, p c = false)
    (h : w.first prev (t ++ s) = some found) : found.size ≤ t.length := by
  have hsplit := first_split h
  obtain ⟨left, -, right, hright, rfl⟩ := first_sound h
  obtain ⟨x, c, hx, hc⟩ := hp _ _ _ hright
  by_contra hlong
  have hbegins : t <+: left.1 ++ x := by
    apply List.prefix_of_prefix_length_le (List.prefix_append t s)
    · rw [hsplit, hx]
      exact ⟨[c] ++ right.2, by simp⟩
    · simp only [Found.size, hx, List.length_append, List.length_singleton] at hlong ⊢
      omega
  obtain ⟨y, hy⟩ := hbegins
  have hmem : c ∈ s := by
    have htext : t ++ s = t ++ (y ++ c :: right.2) := by
      rw [hsplit, hx, ← List.append_assoc left.1, ← hy]
      simp
    rw [List.append_cancel_left htext]
    simp
  rw [hs c hmem] at hc
  cases hc

theorem replaceFrom_of_endsIn {p : Char → Bool} (hp : Regex.EndsIn p w.rest)
    (hs : ∀ c ∈ s, p c = false) (prev : Option Char) : w.replaceFrom 0 prev s = s := by
  induction s generalizing prev with
  | nil => rfl
  | cons c s ih =>
      cases h : w.first prev (c :: s) with
      | none =>
          rw [replaceFrom_none h, ih fun d hd => hs d (List.mem_cons_of_mem c hd)]
      | some found =>
          have hsize := size_le_of_endsIn (t := []) hp hs h
          have hpos := first_size_pos h
          rw [List.length_nil] at hsize
          omega

/-- Such a text is kept at the end. -/
theorem replaceAll_of_endsIn {p : Char → Bool} (hp : Regex.EndsIn p w.rest)
    (hs : ∀ c ∈ s, p c = false) (u : List Char) :
    w.replaceAll (u ++ s) = w.written 0 none u s ++ s := by
  have hstop : w.overrun 0 none u s = 0 := by
    apply Nat.eq_zero_of_le_zero
    apply overrun_le (Nat.zero_le _)
    intro prev t _ _ found hfound
    exact size_le_of_endsIn hp hs hfound
  rw [replaceAll, replaceFrom_append, hstop, replaceFrom_of_endsIn hp hs]

/-- The rewriting behind a first character at which no match begins. -/
def onward (w : Rewrite) : List Char → List Char
  | [] => []
  | c :: s => c :: w.replaceFrom 0 (some c) s

theorem replaceFrom_onward (h : ∀ c ∈ s.head?, w.first prev s = none) :
    w.replaceFrom 0 prev s = w.onward s := by
  cases s with
  | nil => rfl
  | cons c s => exact replaceFrom_none (h c rfl)

/-! ## A pattern that asks nothing about its place -/

theorem first_blind (h : (w.group.seq w.rest).blind = true) (prev prev' : Option Char)
    (s : List Char) : w.first prev s = w.first prev' s := by
  obtain ⟨hgroup, hrest⟩ := Bool.and_eq_true_iff.mp h
  rw [first, first, Regex.runs_blind hgroup prev prev' s]
  congr 1
  apply List.flatMap_congr
  intro run _
  rw [Regex.runs_blind hrest (lastOf prev run.1) (lastOf prev' run.1)]

theorem replaceFrom_blind (h : (w.group.seq w.rest).blind = true) (prev prev' : Option Char)
    (s : List Char) : w.replaceFrom 0 prev s = w.replaceFrom 0 prev' s := by
  cases s with
  | nil => rfl
  | cons c s => rw [replaceFrom, replaceFrom, first_blind h prev prev']

end Rewrite
end PackageHarness.Text
