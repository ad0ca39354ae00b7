/-
# PackageHarness.Sequence.Brackets — brackets and string literals of a text.

A reader that goes through a text character by character needs to remember only how many brackets
are open and whether it is inside a string literal. A text is `WellBracketed` if such a reader ends
where it began. The point of the module is `WellBracketed.cut`: what remains of a bracketed text when
something is cut off at its front is never balanced, wherever the cut is made. After a cut outside a
literal an opening bracket is missing; after a cut inside one, what was literal is read as text and
the other way round, up to the end.

Nothing in this module mentions a particular program.
-/
import Mathlib.Data.List.Infix

namespace PackageHarness.Sequence

/-- What a character is to the reader. -/
inductive Mark
  | quote
  | backslash
  | opening
  | closing
  | plain
  deriving DecidableEq

def mark (c : Char) : Mark :=
  if c = '"' then .quote
  else if c = '\\' then .backslash
  else if c = '\x7b' ∨ c = '[' then .opening
  else if c = '\x7d' ∨ c = ']' then .closing
  else .plain

/-- Where the reader is. -/
inductive Reading
  | outside (depth : Nat)
  | literal (depth : Nat)
  | escape (depth : Nat)
  | invalid

namespace Reading

def next : Reading → Mark → Reading
  | outside depth, .quote => literal depth
  | outside _, .backslash => invalid
  | outside depth, .opening => outside (depth + 1)
  | outside 0, .closing => invalid
  | outside (depth + 1), .closing => outside depth
  | outside depth, .plain => outside depth
  | literal depth, .quote => outside depth
  | literal depth, .backslash => escape depth
  | literal depth, _ => literal depth
  | escape depth, _ => literal depth
  | invalid, _ => invalid

def after (reading : Reading) (text : List Char) : Reading :=
  text.foldl (fun reading c => reading.next (mark c)) reading

/-- The same place, with more brackets open. -/
def raise (more : Nat) : Reading → Reading
  | outside depth => outside (depth + more)
  | literal depth => literal (depth + more)
  | escape depth => escape (depth + more)
  | invalid => invalid

variable {reading other : Reading} {m : Mark} {text rest : List Char} {more : Nat}

theorem after_cons (reading : Reading) (c : Char) (text : List Char) :
    reading.after (c :: text) = (reading.next (mark c)).after text :=
  rfl

theorem after_append (reading : Reading) (text rest : List Char) :
    reading.after (text ++ rest) = (reading.after text).after rest :=
  List.foldl_append ..

theorem after_invalid (text : List Char) : invalid.after text = invalid := by
  induction text with
  | nil => rfl
  | cons c text ih => exact ih

theorem valid_of_after (h : reading.after text ≠ invalid) : reading ≠ invalid := by
  rintro rfl
  exact h (after_invalid text)

theorem next_raise (h : reading.next m ≠ invalid) :
    (reading.raise more).next m = (reading.next m).raise more := by
  cases reading with
  | outside depth =>
      cases m with
      | opening => exact congrArg outside (Nat.add_right_comm depth more 1)
      | closing =>
          cases depth with
          | zero => exact absurd rfl h
          | succ depth =>
              show (outside (depth + 1 + more)).next .closing = outside (depth + more)
              rw [Nat.add_right_comm]
              rfl
      | _ => rfl
  | literal depth => cases m <;> rfl
  | escape depth => rfl
  | invalid => rfl

theorem after_raise (h : reading.after text ≠ invalid) :
    (reading.raise more).after text = (reading.after text).raise more := by
  induction text generalizing reading with
  | nil => rfl
  | cons c text ih =>
      rw [after_cons] at h ⊢
      rw [next_raise (valid_of_after h)]
      exact ih h

/-! ## A reader that missed the beginning -/

/-- How a reader that missed the beginning lags behind one that did not: it has fewer brackets open,
or takes literals for text and text for literals, or has given up. -/
inductive Behind : Reading → Reading → Prop
  | outside {d e : Nat} (h : e ≤ d) : Behind (outside d) (outside e)
  | literal {d e : Nat} (h : e ≤ d) : Behind (literal d) (literal e)
  | escape {d e : Nat} (h : e ≤ d) : Behind (escape d) (escape e)
  | literalOutside {d e : Nat} : Behind (Reading.outside d) (Reading.literal e)
  | outsideLiteral {d e : Nat} : Behind (Reading.literal d) (Reading.outside e)
  | outsideEscape {d : Nat} : Behind (Reading.escape d) (Reading.outside 0)
  | invalid {r : Reading} : Behind r Reading.invalid

theorem Behind.next (h : Behind reading other) (hvalid : reading.next m ≠ .invalid) :
    Behind (reading.next m) (other.next m) := by
  cases h with
  | @outside d e h =>
      cases m with
      | quote => exact .literal h
      | backslash => exact absurd rfl hvalid
      | opening => exact .outside (Nat.succ_le_succ h)
      | closing =>
          cases d with
          | zero => exact absurd rfl hvalid
          | succ d =>
              cases e with
              | zero => exact .invalid
              | succ e => exact .outside (Nat.le_of_succ_le_succ h)
      | plain => exact .outside h
  | literal h =>
      cases m with
      | quote => exact .outside h
      | backslash => exact .escape h
      | _ => exact .literal h
  | escape h => exact .literal h
  | @literalOutside d e =>
      cases m with
      | quote => exact .outsideLiteral
      | backslash => exact absurd rfl hvalid
      | closing =>
          cases d with
          | zero => exact absurd rfl hvalid
          | succ d => exact .literalOutside
      | _ => exact .literalOutside
  | @outsideLiteral d e =>
      cases m with
      | quote => exact .literalOutside
      | backslash => exact .invalid
      | closing =>
          cases e with
          | zero => exact .invalid
          | succ e => exact .outsideLiteral
      | _ => exact .outsideLiteral
  | @outsideEscape d =>
      cases m with
      | quote => exact .literal (Nat.zero_le d)
      | backslash => exact .invalid
      | closing => exact .invalid
      | _ => exact .outsideLiteral
  | invalid => exact .invalid

theorem Behind.after (h : Behind reading other) (hvalid : reading.after text ≠ .invalid) :
    Behind (reading.after text) (other.after text) := by
  induction text generalizing reading other with
  | nil => exact h
  | cons c text ih =>
      rw [after_cons] at hvalid
      exact ih (h.next (valid_of_after hvalid)) hvalid

/-- Starting afresh is being behind, wherever the others are. -/
theorem behind_start (reading : Reading) (hvalid : reading ≠ .invalid) :
    Behind reading (outside 0) := by
  cases reading with
  | outside depth => exact .outside (Nat.zero_le depth)
  | literal depth => exact .outsideLiteral
  | escape depth => exact .outsideEscape
  | invalid => exact absurd rfl hvalid

end Reading

open Reading

/-! ## WellBracketed texts -/

def WellBracketed (text : List Char) : Prop := (outside 0).after text = outside 0

variable {text rest body before : List Char} {c d : Char}

theorem WellBracketed.nil : WellBracketed [] := rfl

theorem WellBracketed.deeper (h : WellBracketed text) (depth : Nat) :
    (outside depth).after text = outside depth := by
  have hvalid : (outside 0).after text ≠ invalid := by
    rw [h]
    exact nofun
  have hraise : ((outside 0).raise depth).after text = _ := after_raise hvalid
  rw [h] at hraise
  simpa [raise] using hraise

theorem WellBracketed.append (htext : WellBracketed text) (hrest : WellBracketed rest) :
    WellBracketed (text ++ rest) := by
  rw [WellBracketed, after_append, htext, hrest]

theorem WellBracketed.bracketed (hopen : mark c = .opening) (hclose : mark d = .closing)
    (h : WellBracketed body) : WellBracketed (c :: (body ++ [d])) := by
  rw [WellBracketed, after_cons, hopen, after_append]
  show ((outside 1).after body).after [d] = outside 0
  rw [h.deeper, after_cons, hclose]
  rfl

/-- Text without quotes, backslashes and brackets. -/
theorem WellBracketed.of_plain (h : ∀ c ∈ text, mark c = .plain) : WellBracketed text := by
  induction text with
  | nil => rfl
  | cons c text ih =>
      rw [WellBracketed, after_cons, h c (List.mem_cons_self ..)]
      exact ih fun c' hmem => h c' (List.mem_cons_of_mem _ hmem)

/-- What remains behind a cut is not balanced. -/
theorem WellBracketed.cut (hclose : mark d = .closing) (h : WellBracketed body)
    (hcut : c :: (body ++ [d]) = before ++ rest) (hbefore : before ≠ []) (hrest : rest ≠ []) :
    ¬ WellBracketed rest := by
  intro hbalanced
  obtain ⟨first, begun, rfl⟩ := List.exists_cons_of_ne_nil hbefore
  rw [← List.dropLast_append_getLast hrest, List.cons_append, ← List.append_assoc] at hcut
  obtain ⟨rfl, hlast⟩ := List.append_inj' (List.cons.inj hcut).2 rfl
  have hlast : d = rest.getLast hrest := (List.cons.inj hlast).1
  -- where the two readers are before the last bracket
  have hwhole : ((outside 0).after begun).after rest.dropLast = outside 0 := by
    rw [← after_append]
    exact h
  have hvalid : ((outside 0).after begun).after rest.dropLast ≠ .invalid := by
    rw [hwhole]
    exact nofun
  have hbehind := (behind_start _ (valid_of_after hvalid)).after hvalid
  rw [hwhole] at hbehind
  have hend : ((outside 0).after rest.dropLast).next .closing = outside 0 := by
    rw [← hclose, hlast]
    rw [WellBracketed, ← List.dropLast_append_getLast hrest, after_append] at hbalanced
    exact hbalanced
  generalize (outside 0).after rest.dropLast = other at hbehind hend
  cases hbehind with
  | outside hdepth =>
      obtain rfl := Nat.le_zero.mp hdepth
      cases hend
  | literalOutside => cases hend
  | invalid => cases hend

end PackageHarness.Sequence
