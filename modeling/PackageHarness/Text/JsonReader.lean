/-
# PackageHarness.Text.JsonReader — reading back what was rendered.

The text is split into tokens, with any whitespace between them, and the tokens are parsed. This
inverts `render` and `renderPretty`, which tells rendered values apart. It is no JSON parser: signs,
fractions and surrogate pairs are among what is never rendered. Nothing in this module mentions a
particular program.
-/
import PackageHarness.Text.Json

namespace PackageHarness

namespace Json

inductive Token
  | null
  | bool (value : Bool)
  | number (value : Nat)
  | text (value : String)
  | mark (c : Char)

/-! ## The tokens of a text -/

def isSpace (c : Char) : Bool := c == ' ' || c == '\n' || c == '\r' || c == '\t'

def isMark (c : Char) : Bool := ['[', ']', '\x7b', '\x7d', ':', ','].contains c

def hexValue (c : Char) : Option Nat :=
  if c.isDigit then some (c.toNat - '0'.toNat)
  else if 'a' ≤ c ∧ c ≤ 'f' then some (c.toNat - 'a'.toNat + 10)
  else if 'A' ≤ c ∧ c ≤ 'F' then some (c.toNat - 'A'.toNat + 10)
  else none

/-- The character that four hexadecimal digits stand for. -/
def codePoint (a b c d : Char) : Option Char := do
  let value := (((← hexValue a) * 16 + (← hexValue b)) * 16 + (← hexValue c)) * 16 + (← hexValue d)
  if value.isValidChar then some (Char.ofNat value) else none

def unescape : Char → Option Char
  | '"' => some '"'
  | '\\' => some '\\'
  | '/' => some '/'
  | 'b' => some '\x08'
  | 'f' => some '\x0c'
  | 'n' => some '\n'
  | 'r' => some '\r'
  | 't' => some '\t'
  | _ => none

/-- The first character of a string literal's text. -/
def readChar : List Char → Option (Char × List Char)
  | '\\' :: 'u' :: a :: b :: c :: d :: rest => (codePoint a b c d).map fun char => (char, rest)
  | '\\' :: escaped :: rest => (unescape escaped).map fun char => (char, rest)
  | c :: rest => if c = '\\' ∨ c.toNat < 32 then none else some (c, rest)
  | [] => none

/-- The rest of a string literal, up to its closing quote. -/
def readChars : Nat → List Char → Option (List Char × List Char)
  | 0, _ => none
  | fuel + 1, text =>
      if text.head? = some '"' then some ([], text.tail)
      else do
        let (char, rest) ← readChar text
        let (chars, rest) ← readChars fuel rest
        return (char :: chars, rest)

/-- A numeral, which has no superfluous zeros in front. -/
def readNumber (text : List Char) : Option (Token × List Char) :=
  let digits := text.takeWhile Char.isDigit
  let value := Nat.ofDigitChars 10 digits 0
  if (toString value).toList = digits then some (.number value, text.dropWhile Char.isDigit)
  else none

def readWord : List Char → Option (Token × List Char)
  | 'n' :: 'u' :: 'l' :: 'l' :: rest => some (.null, rest)
  | 't' :: 'r' :: 'u' :: 'e' :: rest => some (.bool true, rest)
  | 'f' :: 'a' :: 'l' :: 's' :: 'e' :: rest => some (.bool false, rest)
  | '"' :: rest =>
      (readChars (rest.length + 1) rest).map fun (chars, rest) =>
        (.text (String.ofList chars), rest)
  | _ => none

def nextToken : List Char → Option (Token × List Char)
  | [] => none
  | c :: rest =>
      if isMark c then some (.mark c, rest)
      else if c.isDigit then readNumber (c :: rest)
      else readWord (c :: rest)

def tokenize : Nat → List Char → Option (List Token)
  | 0, _ => none
  | fuel + 1, text =>
      match text.dropWhile isSpace with
      | [] => some []
      | text => do
          let (token, rest) ← nextToken text
          return token :: (← tokenize fuel rest)

/-! ## The value of tokens -/

mutual

def parseValue : Nat → List Token → Option (Json × List Token)
  | 0, _ => none
  | _ + 1, .null :: rest => some (.null, rest)
  | _ + 1, .bool value :: rest => some (.bool value, rest)
  | _ + 1, .number value :: rest => some (.number value, rest)
  | _ + 1, .text value :: rest => some (.string value, rest)
  | _ + 1, .mark '[' :: .mark ']' :: rest => some (.array [], rest)
  | fuel + 1, .mark '[' :: rest =>
      (parseItems fuel rest).map fun (items, rest) => (.array items, rest)
  | _ + 1, .mark '\x7b' :: .mark '\x7d' :: rest => some (.object [], rest)
  | fuel + 1, .mark '\x7b' :: rest =>
      (parseMembers fuel rest).map fun (members, rest) => (.object members, rest)
  | _ + 1, _ => none

def parseItems : Nat → List Token → Option (List Json × List Token)
  | 0, _ => none
  | fuel + 1, tokens =>
      match parseValue fuel tokens with
      | some (item, .mark ']' :: rest) => some ([item], rest)
      | some (item, .mark ',' :: rest) =>
          (parseItems fuel rest).map fun (items, rest) => (item :: items, rest)
      | _ => none

def parseMembers : Nat → List Token → Option (List (String × Json) × List Token)
  | 0, _ => none
  | fuel + 1, .text name :: .mark ':' :: tokens =>
      match parseValue fuel tokens with
      | some (value, .mark '\x7d' :: rest) => some ([(name, value)], rest)
      | some (value, .mark ',' :: rest) =>
          (parseMembers fuel rest).map fun (members, rest) => ((name, value) :: members, rest)
      | _ => none
  | _ + 1, _ => none

end

/-- The value that was rendered as a whole text. -/
def readBack (text : String) : Option Json := do
  let tokens ← tokenize (text.length + 1) text.toList
  match parseValue tokens.length tokens with
  | some (value, []) => some value
  | _ => none

/-! ## The reader of characters undoes the writer -/

theorem hexValue_hexDigit {n : Nat} (h : n < 16) : hexValue (hexDigit n) = some n := by
  have hall : ∀ n < 16, hexValue (hexDigit n) = some n := by decide
  exact hall n h

theorem codePoint_hexDigit {c : Char} (h : c.toNat < 32) :
    codePoint '0' '0' (hexDigit (c.toNat / 16)) (hexDigit (c.toNat % 16)) = some c := by
  have hhigh := hexValue_hexDigit (n := c.toNat / 16) (by omega)
  have hlow := hexValue_hexDigit (n := c.toNat % 16) (by omega)
  have hzero : hexValue '0' = some 0 := rfl
  have hvalue : ((0 * 16 + 0) * 16 + c.toNat / 16) * 16 + c.toNat % 16 = c.toNat := by omega
  have hvalid : c.toNat.isValidChar := c.valid
  rw [codePoint, hzero, hhigh, hlow]
  show (if (((0 * 16 + 0) * 16 + c.toNat / 16) * 16 + c.toNat % 16).isValidChar then
    some (Char.ofNat (((0 * 16 + 0) * 16 + c.toNat / 16) * 16 + c.toNat % 16)) else none) = some c
  rw [hvalue, if_pos hvalid, Char.ofNat_toNat]

theorem readChar_escapeChar (c : Char) (rest : List Char) :
    readChar ((escapeChar c).toList ++ rest) = some (c, rest) := by
  unfold escapeChar
  split
  · rfl
  · rfl
  · rfl
  · rfl
  · rfl
  · next hquote hbackslash hnewline hreturn htab =>
      split
      · next hback =>
          have hc : c = '\x08' := Char.toNat_inj.mp hback
          rw [hc]
          rfl
      split
      · next hfeed =>
          have hc : c = '\x0c' := Char.toNat_inj.mp hfeed
          rw [hc]
          rfl
      split
      · next hcontrol =>
          rw [String.toList_ofList]
          show (codePoint '0' '0' (hexDigit (c.toNat / 16)) (hexDigit (c.toNat % 16))).map _ = _
          rw [codePoint_hexDigit hcontrol]
          rfl
      · next hcontrol =>
          have hplain : ¬ (c = '\\' ∨ c.toNat < 32) := by
            rintro (rfl | hlow)
            · exact hbackslash rfl
            · exact hcontrol hlow
          rw [String.toList_singleton]
          show readChar (c :: rest) = _
          rw [readChar.eq_def]
          split
          · next heq =>
              cases heq
              exact absurd rfl hbackslash
          · next heq =>
              cases heq
              exact absurd rfl hbackslash
          · next heq =>
              cases heq
              rw [if_neg hplain]
          · next heq => cases heq

theorem escapeChar_cons (c : Char) :
    ∃ first rest, (escapeChar c).toList = first :: rest ∧ first ≠ '"' := by
  have hread := readChar_escapeChar c []
  rw [List.append_nil] at hread
  cases htext : (escapeChar c).toList with
  | nil =>
      rw [htext] at hread
      cases hread
  | cons first rest =>
      refine ⟨first, rest, rfl, ?_⟩
      rintro rfl
      -- only a quote reads as a quote, and it is written with a backslash
      rw [htext] at hread
      have hplain : readChar ('"' :: rest) = some ('"', rest) := by
        rw [readChar.eq_def]
        split
        · next heq => cases heq
        · next heq => cases heq
        · next heq =>
            cases heq
            rfl
        · next heq => cases heq
      rw [hplain] at hread
      cases hread
      cases htext

theorem length_le_escaped (chars : List Char) :
    chars.length ≤ (String.join (chars.map escapeChar)).toList.length := by
  induction chars with
  | nil => exact Nat.le_refl _
  | cons c chars ih =>
      obtain ⟨first, rest, htext, _⟩ := escapeChar_cons c
      have hjoin : (String.join ((c :: chars).map escapeChar)).toList
          = first :: rest ++ (String.join (chars.map escapeChar)).toList := by simp [htext]
      rw [hjoin, List.length_append, List.length_cons, List.length_cons]
      omega

theorem readChars_escaped (chars rest : List Char) {fuel : Nat} (h : chars.length < fuel) :
    readChars fuel ((String.join (chars.map escapeChar)).toList ++ '"' :: rest)
      = some (chars, rest) := by
  induction chars generalizing fuel with
  | nil =>
      cases fuel with
      | zero => cases h
      | succ fuel => rfl
  | cons c chars ih =>
      cases fuel with
      | zero => cases h
      | succ fuel =>
          have hfuel : chars.length < fuel := by simpa using h
          obtain ⟨first, more, htext, hquote⟩ := escapeChar_cons c
          have hjoin : (String.join ((c :: chars).map escapeChar)).toList ++ '"' :: rest
              = (escapeChar c).toList ++
                ((String.join (chars.map escapeChar)).toList ++ '"' :: rest) := by simp
          have hhead : ((escapeChar c).toList ++
              ((String.join (chars.map escapeChar)).toList ++ '"' :: rest)).head? ≠ some '"' := by
            rw [htext]
            simpa using hquote
          rw [hjoin, readChars, if_neg hhead, readChar_escapeChar]
          show (readChars fuel _).bind _ = _
          rw [ih hfuel]
          rfl

/-! ## Texts that spell tokens -/

/-- The text spells the tokens, one after the other, with whitespace anywhere between them. -/
inductive Spells : List Char → List Token → Prop
  | nil : Spells [] []
  | space {c : Char} {text : List Char} {tokens : List Token} (hspace : isSpace c = true)
      (h : Spells text tokens) : Spells (c :: text) tokens
  | token {c : Char} {text rest : List Char} {token : Token} {tokens : List Token}
      (hspace : isSpace c = false) (htoken : nextToken (c :: text) = some (token, rest))
      (hshorter : rest.length ≤ text.length) (h : Spells rest tokens) :
      Spells (c :: text) (token :: tokens)

theorem Spells.tokenize {text : List Char} {tokens : List Token} (h : Spells text tokens)
    {fuel : Nat} (hfuel : text.length < fuel) : tokenize fuel text = some tokens := by
  induction h generalizing fuel with
  | nil =>
      cases fuel with
      | zero => cases hfuel
      | succ fuel => rfl
  | @space c text tokens hspace _ ih =>
      cases fuel with
      | zero => cases hfuel
      | succ fuel =>
          have hless : text.length < fuel + 1 := Nat.lt_of_succ_lt hfuel
          rw [← ih hless, Json.tokenize, Json.tokenize, List.dropWhile_cons_of_pos hspace]
  | @token c text rest token tokens hspace htoken hshorter _ ih =>
      cases fuel with
      | zero => cases hfuel
      | succ fuel =>
          have hless : rest.length < fuel :=
            Nat.lt_of_le_of_lt hshorter (Nat.lt_of_succ_lt_succ hfuel)
          rw [Json.tokenize, List.dropWhile_cons_of_neg (by simp [hspace])]
          show (nextToken (c :: text)).bind _ = _
          rw [htoken]
          show (Json.tokenize fuel rest).bind _ = _
          rw [ih hless]
          rfl

/-- What does not continue a numeral. -/
def Delimited (text : List Char) : Prop := ∀ c ∈ text.head?, c.isDigit = false

theorem delimited_cons {c : Char} (text : List Char) (h : c.isDigit = false) :
    Delimited (c :: text) := by
  intro d hd
  cases hd
  exact h

theorem Delimited.takeWhile {text : List Char} (h : Delimited text) :
    text.takeWhile Char.isDigit = [] := by
  cases text with
  | nil => rfl
  | cons c text => exact List.takeWhile_cons_of_neg (by simp [h c rfl])

theorem Delimited.dropWhile {text : List Char} (h : Delimited text) :
    text.dropWhile Char.isDigit = text := by
  cases text with
  | nil => rfl
  | cons c text => exact List.dropWhile_cons_of_neg (by simp [h c rfl])

theorem isMark_cases {c : Char} (h : isMark c = true) :
    c = '[' ∨ c = ']' ∨ c = '\x7b' ∨ c = '\x7d' ∨ c = ':' ∨ c = ',' := by
  simpa [isMark] using h

theorem not_isMark_of_isDigit {c : Char} (h : c.isDigit = true) : isMark c = false := by
  rw [Bool.eq_false_iff]
  intro hmark
  obtain rfl | rfl | rfl | rfl | rfl | rfl := isMark_cases hmark <;> cases h

theorem space_of_isDigit {c : Char} (h : c.isDigit = true) : isSpace c = false := by
  rw [Bool.eq_false_iff]
  intro hspace
  have hcases : c = ' ' ∨ c = '\n' ∨ c = '\r' ∨ c = '\t' := by
    simpa [isSpace, or_assoc] using hspace
  obtain rfl | rfl | rfl | rfl := hcases <;> cases h

section Spelling

variable {rest : List Char} {tokens : List Token}

theorem spells_mark {c : Char} (hc : isMark c = true) (h : Spells rest tokens) :
    Spells (c :: rest) (.mark c :: tokens) := by
  have hspace : isSpace c = false := by
    obtain rfl | rfl | rfl | rfl | rfl | rfl := isMark_cases hc <;> rfl
  refine .token hspace ?_ (Nat.le_refl _) h
  rw [nextToken, if_pos hc]

theorem spells_null (h : Spells rest tokens) :
    Spells ("null".toList ++ rest) (.null :: tokens) :=
  .token rfl rfl (Nat.le_add_right _ 3) h

theorem spells_bool (value : Bool) (h : Spells rest tokens) :
    Spells ((if value then "true" else "false").toList ++ rest) (.bool value :: tokens) := by
  cases value with
  | true => exact .token rfl rfl (Nat.le_add_right _ 3) h
  | false => exact .token rfl rfl (Nat.le_add_right _ 4) h

theorem spells_number (value : Nat) (hrest : Delimited rest) (h : Spells rest tokens) :
    Spells ((toString value).toList ++ rest) (.number value :: tokens) := by
  have htext : (toString value).toList = Nat.toDigits 10 value := Nat.toList_repr
  have hdigits : ∀ c ∈ (toString value).toList, c.isDigit = true := by
    rw [htext]
    exact fun c hc => Nat.isDigit_of_mem_toDigits (by decide) (by decide) hc
  have hread : readNumber ((toString value).toList ++ rest) = some (.number value, rest) := by
    have htake : ((toString value).toList ++ rest).takeWhile Char.isDigit
        = (toString value).toList := by
      rw [List.takeWhile_append_of_pos hdigits, hrest.takeWhile, List.append_nil]
    have hdrop : ((toString value).toList ++ rest).dropWhile Char.isDigit = rest := by
      rw [List.dropWhile_append_of_pos hdigits, hrest.dropWhile]
    have hvalue : Nat.ofDigitChars 10 (toString value).toList 0 = value := by
      rw [htext, Nat.ofDigitChars_ten_toDigits]
    simp only [readNumber, htake, hdrop, hvalue, if_pos]
  cases hchars : (toString value).toList with
  | nil => exact absurd (htext.symm.trans hchars) Nat.toDigits_ne_nil
  | cons c more =>
      have hc : c.isDigit = true := hdigits c (by rw [hchars]; exact List.mem_cons_self)
      rw [hchars] at hread
      refine .token (space_of_isDigit hc) ?_ ?_ h
      · rw [nextToken, if_neg (by rw [not_isMark_of_isDigit hc]; decide), if_pos hc]
        exact hread
      · exact (List.suffix_append more rest).length_le

theorem spells_text (value : String) (h : Spells rest tokens) :
    Spells ((renderString value).toList ++ rest) (.text value :: tokens) := by
  have htext : (renderString value).toList ++ rest
      = '"' :: ((String.join (value.toList.map escapeChar)).toList ++ '"' :: rest) := by
    simp [renderString]
  have hlength : value.toList.length
      < ((String.join (value.toList.map escapeChar)).toList ++ '"' :: rest).length + 1 := by
    have hescaped := length_le_escaped value.toList
    rw [List.length_append]
    omega
  rw [htext]
  refine .token rfl ?_ ?_ h
  · show (readChars _ ((String.join (value.toList.map escapeChar)).toList ++ '"' :: rest)).map _
      = _
    rw [readChars_escaped value.toList rest hlength]
    simp
  · have hsuffix : rest <:+ (String.join (value.toList.map escapeChar)).toList ++ '"' :: rest :=
      ((List.suffix_cons '"' rest).trans (List.suffix_append _ _))
    exact hsuffix.length_le

end Spelling

/-! ## The tokens of a value -/

mutual

def tokens : Json → List Token
  | null => [.null]
  | bool value => [.bool value]
  | number value => [.number value]
  | string value => [.text value]
  | array items => .mark '[' :: itemTokens items ++ [.mark ']']
  | object members => .mark '\x7b' :: memberTokens members ++ [.mark '\x7d']

def itemTokens : List Json → List Token
  | [] => []
  | [item] => tokens item
  | item :: items => tokens item ++ .mark ',' :: itemTokens items

def memberTokens : List (String × Json) → List Token
  | [] => []
  | [(name, value)] => .text name :: .mark ':' :: tokens value
  | (name, value) :: members =>
      .text name :: .mark ':' :: tokens value ++ .mark ',' :: memberTokens members

end

/-- No value starts with the mark that closes an array. -/
theorem tokens_cons (value : Json) :
    ∃ first more, tokens value = first :: more ∧ first ≠ .mark ']' := by
  cases value with
  | null => exact ⟨_, _, rfl, by simp⟩
  | bool value => exact ⟨_, _, rfl, by simp⟩
  | number value => exact ⟨_, _, rfl, by simp⟩
  | string value => exact ⟨_, _, rfl, by simp⟩
  | array items => exact ⟨_, _, rfl, by simp⟩
  | object members => exact ⟨_, _, rfl, by simp⟩

theorem itemTokens_open (item : Json) (items : List Json) (rest : List Token) :
    ∀ more, itemTokens (item :: items) ++ rest ≠ .mark ']' :: more := by
  obtain ⟨first, others, hfirst, hne⟩ := tokens_cons item
  intro more heq
  cases items with
  | nil =>
      rw [itemTokens, hfirst] at heq
      exact hne (List.cons.inj heq).1
  | cons second items =>
      rw [itemTokens, hfirst] at heq
      · exact hne (List.cons.inj heq).1
      · exact List.cons_ne_nil second items

theorem memberTokens_open (name : String) (value : Json) (members : List (String × Json))
    (rest : List Token) :
    ∀ more, memberTokens ((name, value) :: members) ++ rest ≠ .mark '\x7d' :: more := by
  intro more heq
  cases members with
  | nil => cases heq
  | cons second members => cases heq

theorem parseValue_array {rest : List Token} {fuel : Nat}
    (h : ∀ more, rest ≠ .mark ']' :: more) :
    parseValue (fuel + 1) (.mark '[' :: rest)
      = (parseItems fuel rest).map fun (items, rest) => (.array items, rest) := by
  cases rest with
  | nil => rfl
  | cons first more =>
      rw [parseValue]
      rintro rest heq
      exact h rest heq

theorem parseValue_object {rest : List Token} {fuel : Nat}
    (h : ∀ more, rest ≠ .mark '\x7d' :: more) :
    parseValue (fuel + 1) (.mark '\x7b' :: rest)
      = (parseMembers fuel rest).map fun (members, rest) => (.object members, rest) := by
  cases rest with
  | nil => rfl
  | cons first more =>
      rw [parseValue]
      rintro rest heq
      exact h rest heq

theorem parseItems_last {tokens rest : List Token} {fuel : Nat} {item : Json}
    (h : parseValue fuel tokens = some (item, .mark ']' :: rest)) :
    parseItems (fuel + 1) tokens = some ([item], rest) := by
  rw [parseItems, h]
  rfl

theorem parseItems_more {tokens rest : List Token} {fuel : Nat} {item : Json}
    (h : parseValue fuel tokens = some (item, .mark ',' :: rest)) :
    parseItems (fuel + 1) tokens
      = (parseItems fuel rest).map fun (items, rest) => (item :: items, rest) := by
  rw [parseItems, h]
  rfl

theorem parseMembers_last {tokens rest : List Token} {fuel : Nat} {name : String} {value : Json}
    (h : parseValue fuel tokens = some (value, .mark '\x7d' :: rest)) :
    parseMembers (fuel + 1) (.text name :: .mark ':' :: tokens) = some ([(name, value)], rest) := by
  rw [parseMembers, h]
  rfl

theorem parseMembers_more {tokens rest : List Token} {fuel : Nat} {name : String} {value : Json}
    (h : parseValue fuel tokens = some (value, .mark ',' :: rest)) :
    parseMembers (fuel + 1) (.text name :: .mark ':' :: tokens)
      = (parseMembers fuel rest).map fun (members, rest) => ((name, value) :: members, rest) := by
  rw [parseMembers, h]
  rfl

mutual

theorem parseValue_tokens : (value : Json) → (rest : List Token) → (fuel : Nat) →
    (tokens value).length ≤ fuel → parseValue fuel (tokens value ++ rest) = some (value, rest)
  | null, rest, fuel + 1, _ => rfl
  | bool value, rest, fuel + 1, _ => rfl
  | number value, rest, fuel + 1, _ => rfl
  | string value, rest, fuel + 1, _ => rfl
  | array [], rest, fuel + 1, _ => rfl
  | array (item :: items), rest, fuel + 1, hfuel => by
      have hitems := parseItems_tokens item items rest fuel (by simpa [tokens] using hfuel)
      have htokens : tokens (array (item :: items)) ++ rest
          = .mark '[' :: (itemTokens (item :: items) ++ .mark ']' :: rest) := by simp [tokens]
      rw [htokens, parseValue_array (itemTokens_open item items _), hitems]
      rfl
  | object [], rest, fuel + 1, _ => rfl
  | object ((name, value) :: members), rest, fuel + 1, hfuel => by
      have hmembers := parseMembers_tokens name value members rest fuel
        (by simpa [tokens] using hfuel)
      have htokens : tokens (object ((name, value) :: members)) ++ rest
          = .mark '\x7b' :: (memberTokens ((name, value) :: members) ++ .mark '\x7d' :: rest) := by
        simp [tokens]
      rw [htokens, parseValue_object (memberTokens_open name value members _), hmembers]
      rfl

theorem parseItems_tokens : (item : Json) → (items : List Json) → (rest : List Token) →
    (fuel : Nat) → (itemTokens (item :: items)).length + 1 ≤ fuel →
    parseItems fuel (itemTokens (item :: items) ++ .mark ']' :: rest) = some (item :: items, rest)
  | item, [], rest, fuel + 1, hfuel =>
      parseItems_last (parseValue_tokens item _ fuel (Nat.le_of_succ_le_succ hfuel))
  | item, second :: items, rest, fuel + 1, hfuel => by
      have hlength : (tokens item).length + ((itemTokens (second :: items)).length + 1) + 1
          ≤ fuel + 1 := by simpa [itemTokens] using hfuel
      have hitem := parseValue_tokens item
        (.mark ',' :: (itemTokens (second :: items) ++ .mark ']' :: rest)) fuel (by omega)
      have hitems := parseItems_tokens second items rest fuel (by omega)
      have htokens : itemTokens (item :: second :: items) ++ .mark ']' :: rest
          = tokens item ++ .mark ',' :: (itemTokens (second :: items) ++ .mark ']' :: rest) := by
        simp [itemTokens]
      rw [htokens, parseItems_more hitem, hitems]
      rfl

theorem parseMembers_tokens : (name : String) → (value : Json) →
    (members : List (String × Json)) → (rest : List Token) → (fuel : Nat) →
    (memberTokens ((name, value) :: members)).length + 1 ≤ fuel →
    parseMembers fuel (memberTokens ((name, value) :: members) ++ .mark '\x7d' :: rest)
      = some ((name, value) :: members, rest)
  | name, value, [], rest, fuel + 1, hfuel => by
      have hlength : (tokens value).length + 1 + 1 + 1 ≤ fuel + 1 := by
        simpa [memberTokens] using hfuel
      exact parseMembers_last (parseValue_tokens value _ fuel (by omega))
  | name, value, (other, second) :: members, rest, fuel + 1, hfuel => by
      have hlength : (tokens value).length
          + ((memberTokens ((other, second) :: members)).length + 1) + 1 + 1 + 1 ≤ fuel + 1 := by
        simpa [memberTokens] using hfuel
      have hvalue := parseValue_tokens value
        (.mark ',' :: (memberTokens ((other, second) :: members) ++ .mark '\x7d' :: rest)) fuel
        (by omega)
      have hmembers := parseMembers_tokens other second members rest fuel (by omega)
      have htokens : memberTokens ((name, value) :: (other, second) :: members)
            ++ .mark '\x7d' :: rest
          = .text name :: .mark ':' :: (tokens value ++
              .mark ',' ::
                (memberTokens ((other, second) :: members) ++ .mark '\x7d' :: rest)) := by
        simp [memberTokens]
      rw [htokens, parseMembers_more hvalue, hmembers]
      rfl

end

/-! ## Both texts of a value spell its tokens -/

theorem spells_margin {rest : List Char} {ts : List Token} (depth : Nat) (h : Spells rest ts) :
    Spells ((margin depth).toList ++ rest) ts := by
  rw [margin, String.toList_ofList]
  induction 2 * depth with
  | zero => exact h
  | succ n ih => exact .space rfl ih

mutual

theorem spells_render : (value : Json) → (rest : List Char) → (ts : List Token) →
    Delimited rest → Spells rest ts → Spells ((render value).toList ++ rest) (tokens value ++ ts)
  | null, _, _, _, h => spells_null h
  | bool value, _, _, _, h => spells_bool value h
  | number value, _, _, hrest, h => spells_number value hrest h
  | string value, _, _, _, h => spells_text value h
  | array items, rest, ts, _, h => by
      have hitems := spells_renderItems items (']' :: rest) _ (delimited_cons rest rfl)
        (spells_mark (c := ']') rfl h)
      simpa [render, tokens] using spells_mark (c := '[') rfl hitems
  | object members, rest, ts, _, h => by
      have hmembers := spells_renderMembers members ('\x7d' :: rest) _ (delimited_cons rest rfl)
        (spells_mark (c := '\x7d') rfl h)
      simpa [render, tokens] using spells_mark (c := '\x7b') rfl hmembers

theorem spells_renderItems : (items : List Json) → (rest : List Char) → (ts : List Token) →
    Delimited rest → Spells rest ts →
    Spells ((renderItems items).toList ++ rest) (itemTokens items ++ ts)
  | [], _, _, _, h => h
  | [item], rest, ts, hrest, h => spells_render item rest ts hrest h
  | item :: second :: items, rest, ts, hrest, h => by
      have hitems := spells_mark (c := ',') rfl
        (spells_renderItems (second :: items) rest ts hrest h)
      simpa [renderItems, itemTokens] using
        spells_render item _ _ (delimited_cons _ rfl) hitems

theorem spells_renderMembers : (members : List (String × Json)) → (rest : List Char) →
    (ts : List Token) → Delimited rest → Spells rest ts →
    Spells ((renderMembers members).toList ++ rest) (memberTokens members ++ ts)
  | [], _, _, _, h => h
  | [(name, value)], rest, ts, hrest, h => by
      have hvalue := spells_mark (c := ':') rfl (spells_render value rest ts hrest h)
      simpa [renderMembers, memberTokens] using spells_text name hvalue
  | (name, value) :: second :: members, rest, ts, hrest, h => by
      have hmembers := spells_mark (c := ',') rfl
        (spells_renderMembers (second :: members) rest ts hrest h)
      have hvalue := spells_mark (c := ':') rfl
        (spells_render value _ _ (delimited_cons _ rfl) hmembers)
      simpa [renderMembers, memberTokens] using spells_text name hvalue

end

mutual

theorem spells_renderPretty : (value : Json) → (depth : Nat) → (rest : List Char) →
    (ts : List Token) → Delimited rest → Spells rest ts →
    Spells ((renderPretty depth value).toList ++ rest) (tokens value ++ ts)
  | null, _, _, _, _, h => spells_null h
  | bool value, _, _, _, _, h => spells_bool value h
  | number value, _, _, _, hrest, h => spells_number value hrest h
  | string value, _, _, _, _, h => spells_text value h
  | array [], _, _, _, _, h => by
      simpa [renderPretty, tokens, itemTokens] using
        spells_mark (c := '[') rfl (spells_mark (c := ']') rfl h)
  | array (item :: items), depth, rest, ts, _, h => by
      have hclose := Spells.space (c := '\n') rfl
        (spells_margin depth (spells_mark (c := ']') rfl h))
      have hitems :=
        spells_prettyItems (item :: items) (depth + 1) _ _ (delimited_cons _ rfl) hclose
      simpa [renderPretty, tokens] using
        spells_mark (c := '[') rfl (.space (c := '\n') rfl hitems)
  | object [], _, _, _, _, h => by
      simpa [renderPretty, tokens, memberTokens] using
        spells_mark (c := '\x7b') rfl (spells_mark (c := '\x7d') rfl h)
  | object (member :: members), depth, rest, ts, _, h => by
      have hclose := Spells.space (c := '\n') rfl
        (spells_margin depth (spells_mark (c := '\x7d') rfl h))
      have hmembers := spells_prettyMembers (member :: members) (depth + 1) _ _
        (delimited_cons _ rfl) hclose
      simpa [renderPretty, tokens] using
        spells_mark (c := '\x7b') rfl (.space (c := '\n') rfl hmembers)

theorem spells_prettyItems : (items : List Json) → (depth : Nat) → (rest : List Char) →
    (ts : List Token) → Delimited rest → Spells rest ts →
    Spells ((prettyItems depth items).toList ++ rest) (itemTokens items ++ ts)
  | [], _, _, _, _, h => h
  | [item], depth, rest, ts, hrest, h => by
      simpa [prettyItems, itemTokens] using
        spells_margin depth (spells_renderPretty item depth rest ts hrest h)
  | item :: second :: items, depth, rest, ts, hrest, h => by
      have hitems := spells_mark (c := ',') rfl (.space (c := '\n') rfl
        (spells_prettyItems (second :: items) depth rest ts hrest h))
      simpa [prettyItems, itemTokens] using
        spells_margin depth (spells_renderPretty item depth _ _ (delimited_cons _ rfl) hitems)

theorem spells_prettyMembers : (members : List (String × Json)) → (depth : Nat) →
    (rest : List Char) → (ts : List Token) → Delimited rest → Spells rest ts →
    Spells ((prettyMembers depth members).toList ++ rest) (memberTokens members ++ ts)
  | [], _, _, _, _, h => h
  | [(name, value)], depth, rest, ts, hrest, h => by
      have hvalue := spells_mark (c := ':') rfl (.space (c := ' ') rfl
        (spells_renderPretty value depth rest ts hrest h))
      simpa [prettyMembers, memberTokens] using spells_margin depth (spells_text name hvalue)
  | (name, value) :: second :: members, depth, rest, ts, hrest, h => by
      have hmembers := spells_mark (c := ',') rfl (.space (c := '\n') rfl
        (spells_prettyMembers (second :: members) depth rest ts hrest h))
      have hvalue := spells_mark (c := ':') rfl (.space (c := ' ') rfl
        (spells_renderPretty value depth _ _ (delimited_cons _ rfl) hmembers))
      simpa [prettyMembers, memberTokens] using spells_margin depth (spells_text name hvalue)

end

/-- A text is read as the value whose tokens it spells. -/
theorem readBack_of_spells {text : String} {value : Json} (h : Spells text.toList (tokens value)) :
    readBack text = some value := by
  have htokens : tokenize (text.length + 1) text.toList = some (tokens value) :=
    h.tokenize (Nat.lt_succ_of_le (Nat.le_of_eq String.length_toList))
  have hvalue := parseValue_tokens value [] _ (Nat.le_refl _)
  rw [List.append_nil] at hvalue
  rw [readBack, htokens]
  show (match parseValue (tokens value).length (tokens value) with
    | some (value, []) => some value
    | _ => none) = some value
  rw [hvalue]

theorem delimited_nil : Delimited [] := by
  intro c hc
  cases hc

@[simp] theorem readBack_render (value : Json) : readBack (render value) = some value := by
  refine readBack_of_spells ?_
  simpa using spells_render value [] [] delimited_nil .nil

@[simp] theorem readBack_renderPretty (value : Json) (depth : Nat) :
    readBack (renderPretty depth value) = some value := by
  refine readBack_of_spells ?_
  simpa using spells_renderPretty value depth [] [] delimited_nil .nil

/-- Different values have different texts. -/
theorem render_injective {value other : Json} (h : render value = render other) :
    value = other := by
  have hread : some value = some other := by rw [← readBack_render value, h, readBack_render]
  exact Option.some.inj hread

end Json

end PackageHarness
