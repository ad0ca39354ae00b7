/-
# PackageHarness.Analysis.Nexus — reading the model's answer.

Reasoning models put a `<think>...</think>` block before the answer, and models sometimes wrap the
object in a Markdown fence or a sentence despite the prompt. `parseAnalysis` therefore drops the
reasoning and accepts the outermost object. The JSON parser is a third-party crate and enters as the
function `fromStr`, with its error text.
-/
import Mathlib.Data.List.DropRight
import Mathlib.Data.List.Infix
import PackageHarness.Coordinator.Json

namespace PackageHarness

namespace Nexus

def THINK_END : String := "</think>"

/-- What follows the last occurrence of a tag. -/
def afterLast (tag : List Char) : List Char → Option (List Char)
  | [] => none
  | c :: cs =>
      match afterLast tag cs with
      | some answer => some answer
      | none => if tag.isPrefixOf (c :: cs) then some ((c :: cs).drop tag.length) else none

/-- The text from the first opening to the last closing brace, if that comes later. -/
def embedded (content : List Char) : Option (List Char) :=
  match content.findIdx? (· == '\x7b'), content.reverse.findIdx? (· == '\x7d') with
  | some start, some behind =>
      let finish := content.length - 1 - behind
      if start < finish then some ((content.take (finish + 1)).drop start) else none
  | _, _ => none

/-- A short redacted single-line excerpt that shows what came back without copying analyzed log
content into errors. -/
def preview (ext : Externals) (text : List Char) : String :=
  redactAndBoundSingleLine ext (String.ofList (trim text)) 120

def invalidResponse (ext : Externals) (content : List Char) (error : String) : AnalyzerError :=
  let start := preview ext content
  .invalidResponse <|
    if content.isEmpty then "Nexus answer is empty"
    else s!"Nexus answer is not the requested JSON object ({error}); it starts with: {start}"

def parseAnalysis (ext : Externals) (fromStr : String → Except String LogAnalysisResult)
    (content : String) : Except AnalyzerError LogAnalysisResult :=
  let content := trim ((afterLast THINK_END.toList content.toList).getD content.toList)
  match fromStr (String.ofList content) with
  | .ok result => .ok result
  | .error strictError =>
      match (embedded content).map fun text => fromStr (String.ofList text) with
      | some (.ok result) => .ok result
      | some (.error error) => .error (invalidResponse ext content error)
      | none => .error (invalidResponse ext content strictError)

/-! ## Tags -/

section

variable {c : Char} {tag tail text rest answer left right : List Char}

/-- A character that the tag does not have keeps two texts apart. -/
theorem infix_of_separated (hc : c ∉ tag) (h : tag <:+: left ++ c :: right) :
    tag <:+: left ∨ tag <:+: right := by
  induction left with
  | nil =>
      rcases List.infix_cons_iff.mp h with hstart | hlater
      · cases tag with
        | nil => exact Or.inl (List.nil_infix)
        | cons c' tail =>
            have hsame := (List.cons_prefix_cons.mp hstart).1
            exact absurd (hsame ▸ List.mem_cons_self ..) hc
      · exact Or.inr hlater
  | cons c' left ih =>
      rcases List.infix_cons_iff.mp h with hstart | hlater
      · have hleft : c' :: left <+: c' :: (left ++ c :: right) := List.prefix_append ..
        rcases List.prefix_or_prefix_of_prefix hstart hleft with hshort | hlong
        · exact Or.inl hshort.isInfix
        · obtain ⟨more, rfl⟩ := hlong
          have hmore : more <+: c :: right := (List.prefix_append_right_inj (c' :: left)).mp hstart
          cases more with
          | nil => exact Or.inl (by rw [List.append_nil])
          | cons c'' more =>
              have hsame := (List.cons_prefix_cons.mp hmore).1
              refine absurd (List.mem_append_right _ ?_) hc
              exact hsame ▸ List.mem_cons_self ..
      · exact (ih hlater).imp_left fun hleft => hleft.trans (List.suffix_cons ..).isInfix

theorem infix_of_not_mem (hc : c ∉ left) (h : c :: tail <:+: left ++ right) :
    c :: tail <:+: right := by
  induction left with
  | nil => exact h
  | cons c' left ih =>
      rw [List.mem_cons, not_or] at hc
      rcases List.infix_cons_iff.mp h with hstart | hlater
      · exact absurd (List.cons_prefix_cons.mp hstart).1 hc.1
      · exact ih hc.2 hlater

theorem afterLast_eq_none_iff (htag : tag ≠ []) : afterLast tag text = none ↔ ¬ tag <:+: text := by
  induction text with
  | nil => simp [afterLast, htag]
  | cons c text ih =>
      rw [afterLast, List.infix_cons_iff, not_or]
      split
      · next answer hanswer =>
          rw [hanswer] at ih
          simp_all
      · next hnone =>
          rw [← ih, hnone]
          simp

theorem eq_of_afterLast (h : afterLast tag text = some answer) :
    ∃ before, text = before ++ (tag ++ answer) := by
  induction text with
  | nil => cases h
  | cons c text ih =>
      rw [afterLast] at h
      split at h
      · next found hfound =>
          obtain ⟨before, rfl⟩ := ih (hfound.trans h)
          exact ⟨c :: before, rfl⟩
      · split at h
        · next hstart =>
            obtain ⟨more, hmore⟩ := List.isPrefixOf_iff_prefix.mp hstart
            rw [← hmore, List.drop_left] at h
            cases h
            exact ⟨[], hmore.symm⟩
        · cases h

theorem afterLast_append (h : afterLast tag text = some answer) (before : List Char) :
    afterLast tag (before ++ text) = some answer := by
  induction before with
  | nil => exact h
  | cons c before ih => rw [List.cons_append, afterLast, ih]

/-- A tag does not overlap itself if its first character comes only once. -/
theorem afterLast_self (hc : c ∉ tail) (hrest : ¬ c :: tail <:+: rest) :
    afterLast (c :: tail) (c :: tail ++ rest) = some rest := by
  have hnone : afterLast (c :: tail) (tail ++ rest) = none := by
    rw [afterLast_eq_none_iff (List.cons_ne_nil c tail)]
    exact fun hinfix => hrest (infix_of_not_mem hc hinfix)
  rw [List.cons_append, afterLast, hnone]
  simp

end

/-! ## Wrapping -/

section

variable {c d : Char} {before body behind init text : List Char}

theorem dropWhile_append_cons {p : Char → Bool} (hc : p c = false) (before body : List Char) :
    (before ++ c :: body).dropWhile p = before.dropWhile p ++ c :: body := by
  induction before with
  | nil => rw [List.nil_append, List.dropWhile_cons, hc]; rfl
  | cons c' before ih =>
      rw [List.cons_append, List.dropWhile_cons, List.dropWhile_cons]
      split
      · exact ih
      · rfl

theorem trim_concat (hd : Redaction.isWhitespace d = false) :
    trim (init ++ [d]) = init.dropWhile Redaction.isWhitespace ++ [d] := by
  rw [trim, dropWhile_append_cons hd, List.reverse_append, List.reverse_singleton,
    List.singleton_append, List.dropWhile_cons, hd]
  simp

/-- Trimming takes nothing from an object, and some of what surrounds it. -/
theorem trim_wrapped (hc : Redaction.isWhitespace c = false)
    (hd : Redaction.isWhitespace d = false) :
    trim (before ++ (c :: (body ++ [d]) ++ behind)) =
      before.dropWhile Redaction.isWhitespace ++
        (c :: (body ++ [d]) ++ behind.rdropWhile Redaction.isWhitespace) := by
  have hreverse : (before.dropWhile Redaction.isWhitespace ++
      (c :: (body ++ [d]) ++ behind)).reverse = behind.reverse ++
        d :: (before.dropWhile Redaction.isWhitespace ++ c :: body).reverse := by
    simp
  rw [trim, List.cons_append, dropWhile_append_cons hc, ← List.cons_append, hreverse,
    dropWhile_append_cons hd]
  simp [List.rdropWhile]

theorem findIdx_append_cons {p : Char → Bool} (hbefore : ∀ c' ∈ before, p c' = false)
    (hc : p c = true) : (before ++ c :: body).findIdx? p = some before.length := by
  rw [List.findIdx?_append, List.findIdx?_eq_none_iff.mpr hbefore, List.findIdx?_cons, hc]
  simp

theorem embedded_wrapped (hbefore : '\x7b' ∉ before) (hbehind : '\x7d' ∉ behind) :
    embedded (before ++ ('\x7b' :: (body ++ ['\x7d']) ++ behind)) =
      some ('\x7b' :: (body ++ ['\x7d'])) := by
  have hreverse : (before ++ ('\x7b' :: (body ++ ['\x7d']) ++ behind)).reverse =
      behind.reverse ++ '\x7d' :: (before ++ '\x7b' :: body).reverse := by
    simp
  have hstart : (before ++ ('\x7b' :: (body ++ ['\x7d']) ++ behind)).findIdx? (· == '\x7b') =
      some before.length :=
    findIdx_append_cons (fun c hc => by simpa using ne_of_mem_of_not_mem hc hbefore) rfl
  have hfinish : (before ++ ('\x7b' :: (body ++ ['\x7d']) ++ behind)).reverse.findIdx?
      (· == '\x7d') = some behind.length := by
    rw [hreverse, ← List.length_reverse]
    refine findIdx_append_cons (fun c hc => ?_) rfl
    simpa using ne_of_mem_of_not_mem (List.mem_reverse.mp hc) hbehind
  have hlength : (before ++ ('\x7b' :: (body ++ ['\x7d']) ++ behind)).length - 1 - behind.length =
      before.length + body.length + 1 := by
    simp only [List.length_append, List.length_cons, List.length_nil]
    omega
  rw [embedded, hstart, hfinish]
  show (if before.length < _ then _ else _) = _
  rw [hlength, if_pos (by omega), ← List.append_assoc, List.take_left' (by simp; omega),
    List.drop_left]

/-- If the content ends with a closing brace, the embedded text runs up to its end. -/
theorem suffix_of_embedded (h : embedded (init ++ ['\x7d']) = some text) :
    ∃ cut, init ++ ['\x7d'] = cut ++ text ∧ text ≠ [] := by
  have hfinish : (init ++ ['\x7d']).reverse.findIdx? (· == '\x7d') = some 0 := by
    simp [List.findIdx?_cons]
  rw [embedded, hfinish] at h
  split at h
  · next start behind hstart hbehind =>
      cases hbehind
      dsimp only at h
      split at h
      · next hlt =>
          have hall : (init ++ ['\x7d']).length - 1 - 0 + 1 = (init ++ ['\x7d']).length := by
            simp
          rw [hall, List.take_length] at h
          cases h
          refine ⟨(init ++ ['\x7d']).take start, (List.take_append_drop ..).symm, ?_⟩
          rw [Ne, List.drop_eq_nil_iff]
          omega
      · cases h
  · cases h

end

end Nexus

end PackageHarness
