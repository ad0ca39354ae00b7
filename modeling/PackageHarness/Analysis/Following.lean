/-
# PackageHarness.Analysis.Following — the lines behind a covered line.

Behind a covered line the key pattern reads on from the line end. If no boundary line of a private key
ends there, the last two patterns rewrite these lines apart from everything before them, and what
stands before the first separator and the first address stays as it is.
-/
import PackageHarness.Analysis.PrivateKeys
import PackageHarness.Analysis.Remains
import PackageHarness.Text.Kept

namespace PackageHarness.Redaction

open Text Text.Regex

variable {c d : Char} {b m s t u x y z : List Char} {prev : Option Char} {found : Found}

/-! ## Line by line -/

theorem Follows.head (hs : Follows s) : ∀ c ∈ s.head?, c = '\n' := fun c hc => (hs.blank c hc).2

theorem size_le_of_nil {w : Rewrite} (h : w.first prev (t ++ []) = some found) :
    found.size ≤ t.length := by
  have hsplit := congrArg List.length (Rewrite.first_split h)
  simp only [List.length_append, List.length_nil] at hsplit
  rw [Found.size]
  omega

theorem url_size_le (hs : Follows s) (h : urlPattern.first prev (t ++ s) = some found) :
    found.size ≤ t.length := by
  rcases hs with rfl | ⟨z, rfl⟩
  · exact size_le_of_nil h
  · exact Rewrite.size_le_of_takesOnly url_takesOnly.1 url_takesOnly.2 rfl h

theorem privateKey_size_le_of_free (hs : Follows s) (hfree : ¬ BOUNDARY_END <:+: s)
    (h : privateKeyPattern.first prev (t ++ s) = some found) : found.size ≤ t.length := by
  rcases hs with rfl | ⟨z, rfl⟩
  · exact size_le_of_nil h
  · refine Rewrite.size_le_of_endsWith privateKey_endsWith (by decide) (by decide) ?_ h
    exact fun hin => hfree (hin.trans (List.suffix_cons _ z).isInfix)

/-- The last two patterns rewrite the lines apart. -/
theorem applied_apart (hs : Follows s) (hfree : ¬ BOUNDARY_END <:+: urlPattern.onward s)
    (z : List Char) :
    privateKeyPattern.replaceAll (urlPattern.replaceAll (z ++ s)) =
      privateKeyPattern.replaceAll (urlPattern.replaceAll z) ++ urlPattern.onward s := by
  have hidle : ∀ c ∈ s.head?, urlPattern.first (lastOf none z) s = none := by
    intro c hc
    obtain ⟨l, rfl⟩ := List.head?_eq_some_iff.mp hc
    rw [hs.head c rfl]
    exact url_idle rfl _ _
  rw [Rewrite.replaceAll_apart rfl (fun _ _ _ h => url_size_le hs h), Rewrite.replaceFrom_onward hidle,
    Rewrite.replaceAll_apart rfl fun _ _ _ h =>
      privateKey_size_le_of_free (hs.onward urlPattern) hfree h,
    Rewrite.replaceFrom_of_endsWith privateKey_endsWith hfree]

/-! ## No boundary line appears -/

theorem foreign_of {w : Rewrite} (hbegins : 'P' ∉ w.replacement)
    (havoids : ∃ d z, w.replacement = d :: z ∧ d ∉ BOUNDARY_END) : Rewrite.Foreign w BOUNDARY_END :=
  ⟨⟨'P', _, rfl, hbegins⟩, havoids⟩

theorem authorization_foreign : Rewrite.Foreign authorizationPattern BOUNDARY_END :=
  foreign_of (by decide) ⟨'[', _, rfl, by decide⟩

theorem bearer_foreign (isWord : Char → Bool) : Rewrite.Foreign (bearerPattern isWord) BOUNDARY_END :=
  foreign_of (w := bearerPattern isWord) (by show 'P' ∉ "Bearer [REDACTED]".toList; decide)
    ⟨'B', _, rfl, by decide⟩

theorem keyValue_foreign : Rewrite.Foreign keyValuePattern BOUNDARY_END :=
  foreign_of (by decide) ⟨'[', _, rfl, by decide⟩

theorem url_foreign : Rewrite.Foreign urlPattern BOUNDARY_END :=
  foreign_of (by decide) ⟨'[', _, rfl, by decide⟩

/-- A boundary line that ends in the rewritten lines ends in the lines. -/
theorem free_onward {w : Rewrite} (hw : Rewrite.Foreign w BOUNDARY_END) (hs : ¬ BOUNDARY_END <:+: s)
    (hline : Follows s) : ¬ BOUNDARY_END <:+: w.onward s := by
  intro hin
  rcases hline with rfl | ⟨z, rfl⟩
  · exact hs hin
  · rw [Rewrite.onward] at hin
    have hlater := Rewrite.infix_of_append (x := ['\n']) (by decide) hin
    exact hs ((Rewrite.infix_of_replaceFrom hw hlater).trans (List.suffix_cons _ z).isInfix)

/-! ## How many lines there are -/

theorem count_onward {w : Rewrite}
    (hdropped : ∀ prev s found, w.first prev s = some found → '\n' ∉ found.dropped)
    (hw : '\n' ∉ w.replacement) (s : List Char) : (w.onward s).count '\n' = s.count '\n' := by
  cases s with
  | nil => rfl
  | cons c s =>
      rw [Rewrite.onward, List.count_cons, List.count_cons, Rewrite.count_replaceFrom hdropped hw,
        List.drop_zero]

theorem keyValue_dropped (prev : Option Char) (s : List Char) (found : Found)
    (h : keyValuePattern.first prev s = some found) : '\n' ∉ found.dropped := by
  obtain ⟨-, -, -, -, -, -, hline⟩ := keyValue_split h
  exact fun hin => hline '\n' hin rfl

theorem url_dropped (prev : Option Char) (s : List Char) (found : Found)
    (h : urlPattern.first prev s = some found) : '\n' ∉ found.dropped := by
  obtain ⟨left, -, right, hright, rfl⟩ := Rewrite.first_sound h
  intro hin
  have hblank := url_takesOnly.2 _ _ _ hright '\n' hin
  cases hblank

theorem count_lines (s : List Char) :
    (urlPattern.onward (keyValuePattern.onward s)).count '\n' = s.count '\n' := by
  rw [count_onward url_dropped (by decide), count_onward keyValue_dropped (by decide)]

/-! ## How the lines begin -/

/-- The key pattern writes the text up to the first separator. -/
theorem keyValue_prefix (hm : ∀ c ∈ m, isSeparator c = false) (prev : Option Char) (s : List Char) :
    ∃ b, keyValuePattern.replaceFrom 0 prev (m ++ s) = m ++ b := by
  induction m generalizing prev with
  | nil => exact ⟨_, rfl⟩
  | cons c m ih =>
      cases h : keyValuePattern.first prev (c :: m ++ s) with
      | none =>
          obtain ⟨b, hb⟩ := ih (fun d hd => hm d (List.mem_cons_of_mem c hd)) (some c)
          rw [List.cons_append] at h ⊢
          rw [Rewrite.replaceFrom_none h, hb]
          exact ⟨b, rfl⟩
      | some found =>
          obtain ⟨e, he⟩ := keyValue_kept hm h
          rw [Rewrite.replaceFrom_found h, he, List.append_assoc, List.append_assoc]
          exact ⟨_, rfl⟩

/-- Neither a separator nor the first letter of an address. -/
def IsStill (c : Char) : Prop := isSeparator c = false ∧ sameLetter 'h' c = false

/-- What stands before the first separator and the first address stays. -/
theorem lines_prefix (hm : ∀ c ∈ m, IsStill c) (s : List Char) :
    ∃ b, urlPattern.onward (keyValuePattern.onward ('\n' :: (m ++ s))) = '\n' :: (m ++ b) := by
  obtain ⟨b, hb⟩ := keyValue_prefix (fun c hc => (hm c hc).1) (some '\n') s
  have hidle : ∀ c ∈ m, ∀ prev s, urlPattern.first prev (c :: s) = none :=
    fun c hc => url_idle (hm c hc).2
  obtain ⟨hwritten, hstop⟩ := Rewrite.written_idle hidle (some '\n') b
  rw [Rewrite.onward, hb, Rewrite.onward, Rewrite.replaceFrom_append, hwritten, hstop]
  exact ⟨_, rfl⟩

end PackageHarness.Redaction
