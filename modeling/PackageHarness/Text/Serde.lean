/-
# PackageHarness.Text.Serde — formats of typed values, and what their derivations do.

A format writes the values of a type as JSON and reads them back. It carries the laws that every
derivation keeps: a written value is read as what a reader can see of it, what was read is seen as
itself, and nothing else of a value is written. What a deserializer makes of JSON that no format has
written is not described here. Nothing in this module mentions a particular program.
-/
import PackageHarness.Text.Json
import Mathlib.Algebra.Group.Nat.Defs
import Mathlib.Data.List.Nodup

namespace PackageHarness.Serde

/-- How the values of a type are written and read back. `Fits` says which of them the format is for,
and `seen` what is left of a value for a reader. No value is written as `null`. -/
structure Format (α : Type) where
  write : α → Json
  readBack : Json → Option α
  Fits : α → Prop
  seen : α → α
  read_write : ∀ {a}, Fits a → readBack (write a) = some (seen a)
  sound : ∀ {json a}, readBack json = some a → Fits a ∧ seen a = a
  write_seen : ∀ a, write (seen a) = write a
  solid : ∀ a, write a ≠ .null

/-- The same for a part of an object. The reader finds the members by their names. -/
structure Members (α : Type) where
  names : List String
  write : α → List (String × Json)
  readBack : (String → Option Json) → Option α
  Fits : α → Prop
  seen : α → α
  named : ∀ a, ((write a).map Prod.fst).Sublist names
  read_write : ∀ {a find}, Fits a → names.Nodup →
    (∀ name ∈ names, find name = (write a).lookup name) → readBack find = some (seen a)
  sound : ∀ {find a}, readBack find = some a → Fits a ∧ seen a = a
  write_seen : ∀ a, write (seen a) = write a

variable {α β : Type}

namespace Format

def string : Format String where
  write := .string
  readBack
    | .string value => some value
    | _ => none
  Fits _ := True
  seen := id
  read_write _ := rfl
  sound _ := ⟨trivial, rfl⟩
  write_seen _ := rfl
  solid := nofun

def bool : Format Bool where
  write := .bool
  readBack
    | .bool value => some value
    | _ => none
  Fits _ := True
  seen := id
  read_write _ := rfl
  sound _ := ⟨trivial, rfl⟩
  write_seen _ := rfl
  solid := nofun

/-- Unsigned integers with so many bits. -/
def number (bits : Nat) : Format Nat where
  write := .number
  readBack
    | .number value => if value < 2 ^ bits then some value else none
    | _ => none
  Fits value := value < 2 ^ bits
  seen := id
  read_write h := if_pos h
  sound {json value} h := by
    cases json with
    | number found =>
        simp only [Option.ite_none_right_eq_some, Option.some.injEq] at h
        obtain ⟨hfits, rfl⟩ := h
        exact ⟨hfits, rfl⟩
    | _ => cases h
  write_seen _ := rfl
  solid := nofun

/-- Texts that are parsed, where a parsed value's own text gives the value again. -/
def parsed (text : α → String) (parse : String → Option α)
    (canonical : ∀ {s a}, parse s = some a → parse (text a) = some a) : Format α where
  write a := .string (text a)
  readBack
    | .string s => parse s
    | _ => none
  Fits a := parse (text a) = some a
  seen := id
  read_write h := h
  sound {json a} h := by
    cases json with
    | string s => exact ⟨canonical h, rfl⟩
    | _ => cases h
  write_seen _ := rfl
  solid := nofun

/-- The value with that text among some values. -/
def pick (toJson : α → Json) (values : List α) : Json → Option α
  | .string text => values.find? fun a =>
      match toJson a with
      | .string name => name == text
      | _ => false
  | _ => none

/-- Enumerations whose values are written as different texts. -/
def enumeration (toJson : α → Json) (values : List α)
    (h : ∀ a, pick toJson values (toJson a) = some a) : Format α where
  write := toJson
  readBack := pick toJson values
  Fits _ := True
  seen := id
  read_write _ := h _
  sound _ := ⟨trivial, rfl⟩
  write_seen _ := rfl
  solid a hnull := by
    have hpick := h a
    rw [hnull] at hpick
    cases hpick

def array (format : Format α) : Format (List α) where
  write values := .array (values.map format.write)
  readBack
    | .array items => items.mapM format.readBack
    | _ => none
  Fits values := ∀ value ∈ values, format.Fits value
  seen := List.map format.seen
  read_write {values} h := by
    show (values.map format.write).mapM format.readBack = _
    induction values with
    | nil => rfl
    | cons value values ih =>
        obtain ⟨hvalue, hvalues⟩ := List.forall_mem_cons.mp h
        rw [List.map_cons, List.mapM_cons, format.read_write hvalue]
        show ((values.map format.write).mapM format.readBack).bind _ = _
        rw [ih hvalues]
        rfl
  sound {json values} h := by
    cases json with
    | array items =>
        induction items generalizing values with
        | nil =>
            cases h
            exact ⟨by simp, rfl⟩
        | cons item items ih =>
            simp only [List.mapM_cons, Option.bind_eq_bind, Option.bind_eq_some_iff] at h
            obtain ⟨value, hvalue, rest, hrest, heq⟩ := h
            cases heq
            obtain ⟨hfits, hseen⟩ := format.sound hvalue
            obtain ⟨hrestFits, hrestSeen⟩ := ih hrest
            refine ⟨List.forall_mem_cons.mpr ⟨hfits, hrestFits⟩, ?_⟩
            rw [List.map_cons, hseen, hrestSeen]
    | _ => cases h
  write_seen values := by
    rw [List.map_map]
    exact congrArg Json.array (List.map_congr_left fun value _ => format.write_seen value)
  solid := nofun

end Format

namespace Members

/-- A member that must be there. -/
def required (name : String) (format : Format α) : Members α where
  names := [name]
  write a := [(name, format.write a)]
  readBack find := (find name).bind format.readBack
  Fits := format.Fits
  seen := format.seen
  named _ := List.Sublist.refl _
  read_write {a find} h _ hfind := by
    have hname := hfind name (List.mem_singleton_self name)
    rw [List.lookup_cons_self] at hname
    rw [hname]
    exact format.read_write h
  sound h := by
    obtain ⟨_, _, hread⟩ := Option.bind_eq_some_iff.mp h
    exact format.sound hread
  write_seen a := by rw [format.write_seen]

/-- A member with a value for readers that do not find it, and which is left out when the value
that is to be written says so. -/
def defaulted (name : String) (format : Format α) (value : α) (leftOut : α → Bool)
    (hvalue : format.Fits value ∧ format.seen value = value)
    (hleftOut : ∀ a, leftOut a = true → format.seen a = value)
    (hseen : ∀ a, leftOut (format.seen a) = leftOut a) : Members α where
  names := [name]
  write a := if leftOut a then [] else [(name, format.write a)]
  readBack find :=
    match find name with
    | none => some value
    | some json => format.readBack json
  Fits := format.Fits
  seen := format.seen
  named a := by
    split
    · exact List.nil_sublist _
    · exact List.Sublist.refl _
  read_write {a find} h _ hfind := by
    have hname := hfind name (List.mem_singleton_self name)
    cases hout : leftOut a with
    | true =>
        rw [hout, if_pos rfl] at hname
        rw [hname, hleftOut a hout]
        rfl
    | false =>
        rw [hout, if_neg (by decide), List.lookup_cons_self] at hname
        rw [hname]
        exact format.read_write h
  sound {find a} h := by
    split at h
    · cases h
      exact hvalue
    · exact format.sound h
  write_seen a := by rw [hseen, format.write_seen]

/-- A member that has some value for readers that do not find it. -/
def withDefault (name : String) (format : Format α) (value : α)
    (h : format.Fits value ∧ format.seen value = value) : Members α :=
  defaulted name format value (fun _ => false) h (by simp) fun _ => rfl

/-- A member for a value that may be absent. A reader takes `null` as well as a missing member as
its absence; the writer leaves the member out, or writes `null`. -/
def nullable (name : String) (format : Format α) (leftOut : Bool) : Members (Option α) where
  names := [name]
  write a := if leftOut && a.isNone then [] else [(name, Json.option format.write a)]
  readBack find :=
    match find name with
    | none => some none
    | some .null => some none
    | some json => (format.readBack json).map some
  Fits a := ∀ value ∈ a, format.Fits value
  seen := Option.map format.seen
  named a := by
    split
    · exact List.nil_sublist _
    · exact List.Sublist.refl _
  read_write {a find} h _ hfind := by
    have hname := hfind name (List.mem_singleton_self name)
    cases a with
    | none =>
        cases leftOut with
        | true =>
            rw [hname]
            rfl
        | false =>
            rw [hname]
            show (match List.lookup name [(name, Json.null)] with
              | none => some none
              | some .null => some none
              | some json => (format.readBack json).map some) = _
            rw [List.lookup_cons_self]
            rfl
    | some value =>
        have hwritten : find name = some (format.write value) := by
          rw [hname, Option.isNone_some, Bool.and_false, if_neg (by decide)]
          exact List.lookup_cons_self
        have hread := format.read_write (h value rfl)
        rw [hwritten]
        split
        · next heq => cases heq
        · next heq => exact absurd (Option.some.inj heq) (format.solid value)
        · next heq =>
            cases heq
            rw [hread]
            rfl
  sound {find a} h := by
    split at h
    · cases h
      exact ⟨by simp, rfl⟩
    · cases h
      exact ⟨by simp, rfl⟩
    · obtain ⟨value, hread, rfl⟩ := Option.map_eq_some_iff.mp h
      obtain ⟨hfits, hseen⟩ := format.sound hread
      refine ⟨?_, congrArg some hseen⟩
      intro other hother
      cases hother
      exact hfits
  write_seen a := by
    cases a with
    | none => rfl
    | some value =>
        show (if leftOut && false then [] else [(name, format.write (format.seen value))]) = _
        rw [format.write_seen]
        rfl

abbrev optional (name : String) (format : Format α) : Members (Option α) :=
  nullable name format false

abbrev skippedWhenNone (name : String) (format : Format α) : Members (Option α) :=
  nullable name format true

/-- A list that is left out when it is empty. -/
def skippedWhenEmpty (name : String) (format : Format α) : Members (List α) :=
  defaulted name format.array [] List.isEmpty ⟨by simp [Format.array], rfl⟩
    (by simp [Format.array]) (by simp [Format.array])

/-- What is neither written nor read. -/
def absent (value : α) : Members α where
  names := []
  write _ := []
  readBack _ := some value
  Fits _ := True
  seen _ := value
  named _ := List.Sublist.refl _
  read_write _ _ _ := rfl
  sound h := by
    cases h
    exact ⟨trivial, rfl⟩
  write_seen _ := rfl

theorem lookup_eq_none {members : List (String × Json)} {names : List String} {name : String}
    (hnamed : (members.map Prod.fst).Sublist names) (h : name ∉ names) :
    members.lookup name = none := by
  rw [List.lookup_eq_none_iff]
  intro member hmember
  rw [bne_iff_ne]
  rintro rfl
  exact h (hnamed.subset (List.mem_map_of_mem hmember))

/-- The members of both parts. -/
def and (first : Members α) (second : Members β) : Members (α × β) where
  names := first.names ++ second.names
  write a := first.write a.1 ++ second.write a.2
  readBack find := (first.readBack find).bind fun a => (second.readBack find).map fun b => (a, b)
  Fits a := first.Fits a.1 ∧ second.Fits a.2
  seen a := (first.seen a.1, second.seen a.2)
  named a := by
    rw [List.map_append]
    exact (first.named a.1).append (second.named a.2)
  read_write {a find} h hnames hfind := by
    obtain ⟨hfirst, hsecond, hdisjoint⟩ := List.nodup_append'.mp hnames
    have hreadFirst : first.readBack find = some (first.seen a.1) := by
      refine first.read_write h.1 hfirst ?_
      intro name hname
      rw [hfind name (List.mem_append_left _ hname), List.lookup_append,
        lookup_eq_none (second.named a.2) (hdisjoint hname), Option.or_none]
    have hreadSecond : second.readBack find = some (second.seen a.2) := by
      refine second.read_write h.2 hsecond ?_
      intro name hname
      have hother : name ∉ first.names := fun hmem => hdisjoint hmem hname
      rw [hfind name (List.mem_append_right _ hname), List.lookup_append,
        lookup_eq_none (first.named a.1) hother, Option.none_or]
    rw [hreadFirst, hreadSecond]
    rfl
  sound {find a} h := by
    obtain ⟨a, hfirst, hrest⟩ := Option.bind_eq_some_iff.mp h
    obtain ⟨b, hsecond, rfl⟩ := Option.map_eq_some_iff.mp hrest
    obtain ⟨hfitsFirst, hseenFirst⟩ := first.sound hfirst
    obtain ⟨hfitsSecond, hseenSecond⟩ := second.sound hsecond
    exact ⟨⟨hfitsFirst, hfitsSecond⟩, Prod.ext hseenFirst hseenSecond⟩
  write_seen a := by rw [first.write_seen, second.write_seen]

/-- The members as the fields of a structure. -/
def fields (members : Members β) (pack : β → α) (unpack : α → β)
    (inverse : ∀ b, unpack (pack b) = b := by exact fun _ => rfl) : Members α where
  names := members.names
  write a := members.write (unpack a)
  readBack find := (members.readBack find).map pack
  Fits a := members.Fits (unpack a)
  seen a := pack (members.seen (unpack a))
  named a := members.named (unpack a)
  read_write h hnames hfind := by rw [members.read_write h hnames hfind]; rfl
  sound {find a} h := by
    obtain ⟨b, hread, rfl⟩ := Option.map_eq_some_iff.mp h
    obtain ⟨hfits, hseen⟩ := members.sound hread
    rw [inverse]
    exact ⟨hfits, congrArg pack hseen⟩
  write_seen a := by rw [inverse, members.write_seen]

end Members

/-- An object with some members. A known name must not come twice, and a closed object has no
other names. -/
def Format.object (closed : Bool) (members : Members α)
    (once : members.names.Nodup := by exact of_decide_eq_true rfl) : Format α where
  write a := .object (members.write a)
  readBack
    | .object found =>
        let names := found.map Prod.fst
        if (names.filter (members.names.contains ·)).Nodup ∧
            (closed = true → ∀ name ∈ names, name ∈ members.names) then
          members.readBack fun name => found.lookup name
        else none
    | _ => none
  Fits := members.Fits
  seen := members.seen
  read_write {a} hfits := by
    have hknown : ∀ name ∈ (members.write a).map Prod.fst, name ∈ members.names :=
      fun _ hname => (members.named a).subset hname
    have honce : (((members.write a).map Prod.fst).filter (members.names.contains ·)).Nodup :=
      (once.sublist (members.named a)).filter _
    show (if _ then _ else _) = _
    rw [if_pos ⟨honce, fun _ => hknown⟩]
    exact members.read_write hfits once fun _ _ => rfl
  sound {json a} hread := by
    cases json with
    | object found =>
        simp only [Option.ite_none_right_eq_some] at hread
        exact members.sound hread.2
    | _ => cases hread
  write_seen a := congrArg Json.object (members.write_seen a)
  solid := nofun

/-- Values that readers see whole are told apart by what is written for them. -/
theorem Format.write_injective {format : Format α} (hwhole : format.seen = id) {a b : α}
    (ha : format.Fits a) (hb : format.Fits b) (h : format.write a = format.write b) : a = b := by
  have hread := format.read_write ha
  rw [h, format.read_write hb, hwhole] at hread
  exact (Option.some.inj hread).symm

/-! ## Which values fit -/

section Fits

variable {first : Members α} {second : Members β} {a : α} {b : β}

theorem Members.fits_and (ha : first.Fits a) (hb : second.Fits b) :
    (first.and second).Fits (a, b) := ⟨ha, hb⟩

theorem Members.fits_some {name : String} {format : Format α} {leftOut : Bool} (h : format.Fits a) :
    (Members.nullable name format leftOut).Fits (some a) := by
  rintro value hvalue
  cases hvalue
  exact h

theorem Members.fits_none {name : String} {format : Format α} {leftOut : Bool} :
    (Members.nullable name format leftOut).Fits none := nofun

theorem Format.fits_nil {format : Format α} : format.array.Fits [] := nofun

theorem Format.fits_singleton {format : Format α} (h : format.Fits a) : format.array.Fits [a] := by
  intro value hvalue
  rw [List.mem_singleton.mp hvalue]
  exact h

theorem Format.fits_object {closed : Bool} {members : Members β} {pack : β → α} {unpack : α → β}
    {inverse : ∀ b, unpack (pack b) = b}
    {once : (members.fields pack unpack inverse).names.Nodup} (h : members.Fits (unpack a)) :
    (Format.object closed (members.fields pack unpack inverse) once).Fits a := h

end Fits

/-! ## What readers see -/

@[simp] theorem Format.string_seen : Format.string.seen = id := rfl
@[simp] theorem Format.bool_seen : Format.bool.seen = id := rfl
@[simp] theorem Format.number_seen (bits : Nat) : (Format.number bits).seen = id := rfl

@[simp] theorem Format.parsed_seen (text : α → String) (parse : String → Option α)
    (canonical : ∀ {s a}, parse s = some a → parse (text a) = some a) :
    (Format.parsed text parse canonical).seen = id := rfl

@[simp] theorem Format.enumeration_seen (toJson : α → Json) (values : List α)
    (h : ∀ a, pick toJson values (toJson a) = some a) :
    (Format.enumeration toJson values h).seen = id := rfl

@[simp] theorem Format.array_seen (format : Format α) :
    format.array.seen = List.map format.seen := rfl

@[simp] theorem Members.required_seen (name : String) (format : Format α) :
    (Members.required name format).seen = format.seen := rfl

@[simp] theorem Members.withDefault_seen (name : String) (format : Format α) (value : α)
    (h : format.Fits value ∧ format.seen value = value) :
    (Members.withDefault name format value h).seen = format.seen := rfl

@[simp] theorem Members.nullable_seen (name : String) (format : Format α) (leftOut : Bool) :
    (Members.nullable name format leftOut).seen = Option.map format.seen := rfl

@[simp] theorem Members.skippedWhenEmpty_seen (name : String) (format : Format α) :
    (Members.skippedWhenEmpty name format).seen = List.map format.seen := rfl

@[simp] theorem Members.absent_seen (value : α) :
    (Members.absent value).seen = fun _ => value := rfl

@[simp] theorem Members.and_seen (first : Members α) (second : Members β) :
    (first.and second).seen = Prod.map first.seen second.seen := rfl

/-- A structure is seen as what its fields are seen as. -/
theorem Format.object_fields_seen {closed : Bool} {members : Members β} {pack : β → α}
    {unpack : α → β} {inverse : ∀ b, unpack (pack b) = b}
    {once : (members.fields pack unpack inverse).names.Nodup} {f : α → α}
    (h : ∀ a, pack (members.seen (unpack a)) = f a) :
    (Format.object closed (members.fields pack unpack inverse) once).seen = f := funext h

end PackageHarness.Serde
