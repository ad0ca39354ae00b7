/-
# PackageHarness.Text.Json — JSON values and their compact text.

Nothing in this module mentions a particular program.
-/
import Mathlib.Data.List.Infix

namespace PackageHarness

inductive Json
  | null
  | bool (value : Bool)
  | number (value : Nat)
  | string (value : String)
  | array (items : List Json)
  | object (members : List (String × Json))

namespace Json

def hexDigit (n : Nat) : Char := (Nat.digitChar n).toLower

/-- One character of a string literal, escaped as the serializer does. -/
def escapeChar (c : Char) : String :=
  match c with
  | '"' => "\\\""
  | '\\' => "\\\\"
  | '\n' => "\\n"
  | '\r' => "\\r"
  | '\t' => "\\t"
  | c =>
      if c.toNat = 8 then "\\b"
      else if c.toNat = 12 then "\\f"
      else if c.toNat < 32 then
        String.ofList ['\\', 'u', '0', '0', hexDigit (c.toNat / 16), hexDigit (c.toNat % 16)]
      else String.singleton c

def renderString (s : String) : String :=
  "\"" ++ String.join (s.toList.map escapeChar) ++ "\""

mutual

def render : Json → String
  | null => "null"
  | bool value => if value then "true" else "false"
  | number value => toString value
  | string value => renderString value
  | array items => "[" ++ renderItems items ++ "]"
  | object members => "\x7b" ++ renderMembers members ++ "\x7d"

def renderItems : List Json → String
  | [] => ""
  | [item] => render item
  | item :: items => render item ++ "," ++ renderItems items

def renderMembers : List (String × Json) → String
  | [] => ""
  | [(name, value)] => renderString name ++ ":" ++ render value
  | (name, value) :: members =>
      renderString name ++ ":" ++ render value ++ "," ++ renderMembers members

end

/-! ## Indented text -/

def margin (depth : Nat) : String := String.ofList (List.replicate (2 * depth) ' ')

mutual

/-- The text over several lines, with two spaces for each level. -/
def renderPretty (depth : Nat) : Json → String
  | null => "null"
  | bool value => if value then "true" else "false"
  | number value => toString value
  | string value => renderString value
  | array [] => "[]"
  | array items => "[\n" ++ prettyItems (depth + 1) items ++ "\n" ++ margin depth ++ "]"
  | object [] => "\x7b\x7d"
  | object members =>
      "\x7b\n" ++ prettyMembers (depth + 1) members ++ "\n" ++ margin depth ++ "\x7d"

def prettyItems (depth : Nat) : List Json → String
  | [] => ""
  | [item] => margin depth ++ renderPretty depth item
  | item :: items => margin depth ++ renderPretty depth item ++ ",\n" ++ prettyItems depth items

def prettyMembers (depth : Nat) : List (String × Json) → String
  | [] => ""
  | [(name, value)] => margin depth ++ renderString name ++ ": " ++ renderPretty depth value
  | (name, value) :: members =>
      margin depth ++ renderString name ++ ": " ++ renderPretty depth value ++ ",\n" ++
        prettyMembers depth members

end

/-- The text of a member occurs in the text of its object. -/
theorem render_member {members : List (String × Json)} (name : String) {value : Json}
    (h : (name, value) ∈ members) :
    (render value).toList <:+: (render (.object members)).toList := by
  have key : (render value).toList <:+: (renderMembers members).toList := by
    induction members with
    | nil => cases h
    | cons first rest ih =>
        rcases List.mem_cons.mp h with rfl | hrest
        · cases rest with
          | nil => exact ⟨(renderString name ++ ":").toList, [], by simp [renderMembers]⟩
          | cons second rest =>
              refine ⟨(renderString name ++ ":").toList,
                ("," ++ renderMembers (second :: rest)).toList, ?_⟩
              simp [renderMembers]
        · cases rest with
          | nil => cases hrest
          | cons second rest =>
              obtain ⟨before, after, heq⟩ := ih hrest
              refine ⟨(renderString first.1 ++ ":" ++ render first.2 ++ ",").toList ++ before,
                after, ?_⟩
              simp [renderMembers, ← heq]
  obtain ⟨before, after, heq⟩ := key
  refine ⟨"\x7b".toList ++ before, after ++ "\x7d".toList, ?_⟩
  simp [render, ← heq]

def option {α : Type} (f : α → Json) : Option α → Json
  | none => null
  | some a => f a

def strings (values : List String) : Json := array (values.map string)

/-- A member that is left out when its list is empty. -/
def unlessEmpty {α : Type} (name : String) (f : α → Json) (values : List α) :
    List (String × Json) :=
  if values.isEmpty then [] else [(name, array (values.map f))]

end Json

end PackageHarness
