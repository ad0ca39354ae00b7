/-
# PackageHarness.Text.UrlPath — the path of a URL, with its dot segments removed.

The path state of the URL standard reads a text segment by segment. A slash, a backslash, a question
mark, a number sign or the end of the text closes a segment: a double-dot segment takes the segment
before it away, a single-dot segment is dropped, and every other segment is kept. What is read
afterwards has no dot segments, so a text keeps its own segments exactly if none of them is one.

The schemes are those with a host (`http`, `https`); tabs and line ends are already removed. Nothing
in this module mentions a particular program.
-/
import PackageHarness.Text.Chars

namespace PackageHarness.UrlPath

abbrev Segment := List Char

/-! ## Segments -/

def isDot (s : Segment) : Bool :=
  ["." , "%2e"].any fun form => s.map Char.toLower == form.toList

def isDoubleDot (s : Segment) : Bool :=
  ["..", ".%2e", "%2e.", "%2e%2e"].any fun form => s.map Char.toLower == form.toList

/-- A segment that stands for itself. -/
def IsLiteral (s : Segment) : Prop := isDot s = false ∧ isDoubleDot s = false

instance (s : Segment) : Decidable (IsLiteral s) := inferInstanceAs (Decidable (_ ∧ _))

/-- The path percent-encode set. -/
def inPathSet (c : Char) : Bool :=
  let n := c.toNat
  n ≤ 0x1F || 0x7E < n || [0x20, 0x22, 0x23, 0x3C, 0x3E, 0x3F, 0x5E, 0x60, 0x7B, 0x7D].contains n

def hexDigit (n : Nat) : Char := Char.ofNat (if n < 10 then 0x30 + n else 0x37 + n)

def percentEncode (c : Char) : List Char :=
  if inPathSet c then
    (String.utf8EncodeChar c).flatMap fun b => ['%', hexDigit (b.toNat / 16), hexDigit (b.toNat % 16)]
  else
    [c]

/-- The path after the segment is closed; `final` if no further segment follows. -/
def close (path : List Segment) (s : Segment) (final : Bool) : List Segment :=
  if isDoubleDot s then
    if final then path.dropLast ++ [[]] else path.dropLast
  else if isDot s then
    if final then path ++ [[]] else path
  else
    path ++ [s]

/-- The path state: the path so far, the open segment and the text that is left. -/
def pathState (path : List Segment) (buffer : Segment) : List Char → List Segment
  | [] => close path buffer true
  | c :: cs =>
      if c = '/' ∨ c = '\\' then
        pathState (close path buffer false) [] cs
      else if c = '?' ∨ c = '#' then
        close path buffer true
      else
        pathState path (buffer ++ percentEncode c) cs

variable {path segments : List Segment} {s buffer : Segment} {c : Char} {text : List Char}

theorem isLiteral_nil : IsLiteral [] := by decide

theorem close_of_isLiteral (h : IsLiteral s) (final : Bool) : close path s final = path ++ [s] := by
  rw [close, if_neg (by rw [h.2]; decide), if_neg (by rw [h.1]; decide)]

/-- A segment that stands for itself is told from every other one by what is left. -/
theorem eq_of_close_eq {t : Segment} (hs : IsLiteral s)
    (h : close path t false = close path s false) : t = s := by
  rw [close_of_isLiteral hs] at h
  have hlength : (path ++ [s]).length = path.length + 1 := List.length_append
  rw [← h] at hlength
  rw [close] at h hlength
  split at h
  · next hdouble =>
      rw [if_pos hdouble, if_neg (by decide), List.length_dropLast] at hlength
      omega
  · next hdouble =>
      rw [if_neg hdouble] at hlength
      split at h
      · next hdot =>
          rw [if_pos hdot, if_neg (by decide)] at hlength
          omega
      · exact List.singleton_inj.mp (List.append_cancel_left h)

/-- Whatever is closed, a path without dot segments stays without. -/
theorem isLiteral_close (hpath : ∀ p ∈ path, IsLiteral p) (s : Segment) (final : Bool) :
    ∀ p ∈ close path s final, IsLiteral p := by
  have hnil : ∀ p ∈ [([] : Segment)], IsLiteral p := by
    intro p hp
    rw [List.mem_singleton.mp hp]
    exact isLiteral_nil
  have hdrop : ∀ p ∈ path.dropLast, IsLiteral p := fun p hp => hpath p (List.dropLast_subset path hp)
  rw [close]
  split
  · split
    · exact List.forall_mem_append.mpr ⟨hdrop, hnil⟩
    · exact hdrop
  · next hdouble =>
      split
      · split
        · exact List.forall_mem_append.mpr ⟨hpath, hnil⟩
        · exact hpath
      · next hdot =>
          refine List.forall_mem_append.mpr ⟨hpath, ?_⟩
          intro p hp
          rw [List.mem_singleton.mp hp]
          exact ⟨Bool.eq_false_iff.mpr hdot, Bool.eq_false_iff.mpr hdouble⟩

theorem isLiteral_pathState (hpath : ∀ p ∈ path, IsLiteral p) :
    ∀ p ∈ pathState path buffer text, IsLiteral p := by
  induction text generalizing path buffer with
  | nil => exact isLiteral_close hpath buffer true
  | cons c cs ih =>
      rw [pathState]
      split
      · exact ih (isLiteral_close hpath buffer false)
      · split
        · exact isLiteral_close hpath buffer true
        · exact ih hpath

/-- Without percent signs, the dot segments are one and two dots. -/
theorem isLiteral_iff (h : '%' ∉ s) : IsLiteral s ↔ s ≠ ['.'] ∧ s ≠ ['.', '.'] := by
  have hpercent : '%' ∉ s.map Char.toLower := by
    intro hmem
    obtain ⟨c, hc, hlower⟩ := List.mem_map.mp hmem
    rw [Text.eq_of_toLower_eq hlower (by decide)] at hc
    exact h hc
  have hdots : ∀ t : Segment, (∀ d ∈ t, d = '.') → (s.map Char.toLower = t ↔ s = t) := by
    intro t ht
    constructor
    · intro hmap
      have hkeep : s.map Char.toLower = s := by
        refine (List.map_congr_left ?_).trans (List.map_id s)
        intro c hc
        have hdot : c.toLower = '.' := ht _ (hmap ▸ List.mem_map_of_mem hc)
        rw [hdot, Text.eq_of_toLower_eq hdot (by decide), id]
      rw [← hmap, hkeep]
    · intro hs
      rw [hs]
      refine (List.map_congr_left ?_).trans (List.map_id t)
      intro c hc
      rw [ht c hc]
      rfl
  have hnot : ∀ t : Segment, t.contains '%' = true → s.map Char.toLower ≠ t := by
    intro t ht hmap
    rw [hmap] at hpercent
    exact hpercent (List.contains_iff_mem.mp ht)
  have hone := hdots ['.'] (List.forall_mem_singleton.mpr rfl)
  have htwo := hdots ['.', '.'] (List.forall_mem_cons.mpr ⟨rfl, List.forall_mem_singleton.mpr rfl⟩)
  have hencoded := hnot "%2e".toList rfl
  have hleft := hnot ".%2e".toList rfl
  have hright := hnot "%2e.".toList rfl
  have hboth := hnot "%2e%2e".toList rfl
  rw [IsLiteral, isDot, isDoubleDot, List.any_eq_false, List.any_eq_false]
  simp only [List.forall_mem_cons, beq_iff_eq, List.not_mem_nil, false_imp_iff, implies_true]
  show (s.map Char.toLower ≠ ['.'] ∧ _) ∧ s.map Char.toLower ≠ ['.', '.'] ∧ _ ↔ _
  rw [Ne, hone, Ne, htwo]
  exact ⟨fun h => ⟨h.1.1, h.2.1⟩,
    fun h => ⟨⟨h.1, hencoded, trivial⟩, h.2, hleft, hright, hboth, trivial⟩⟩

/-! ## Plain texts -/

/-- A character that neither closes a segment nor is encoded. -/
def IsPlain (c : Char) : Prop :=
  c ≠ '/' ∧ c ≠ '\\' ∧ c ≠ '?' ∧ c ≠ '#' ∧ inPathSet c = false

instance (c : Char) : Decidable (IsPlain c) := inferInstanceAs (Decidable (_ ∧ _))

theorem IsPlain.percentEncode (h : IsPlain c) : percentEncode c = [c] := by
  rw [UrlPath.percentEncode, if_neg (by rw [h.2.2.2.2]; decide)]

theorem pathState_plain (hs : ∀ c ∈ s, IsPlain c) (path : List Segment) (buffer : Segment)
    (text : List Char) : pathState path buffer (s ++ text) = pathState path (buffer ++ s) text := by
  induction s generalizing buffer with
  | nil => rw [List.nil_append, List.append_nil]
  | cons c s ih =>
      have hc : IsPlain c := hs c List.mem_cons_self
      have hrest : ∀ d ∈ s, IsPlain d := fun d hd => hs d (List.mem_cons_of_mem c hd)
      obtain ⟨hslash, hback, hquery, hfragment, -⟩ := hc
      rw [List.cons_append, pathState, if_neg (by simp [hslash, hback]),
        if_neg (by simp [hquery, hfragment]), (hs c List.mem_cons_self).percentEncode,
        ih hrest, List.append_assoc, List.singleton_append]

/-- The segments closed one after the other, the last of them as the final one. -/
def closeAll (path : List Segment) : List Segment → List Segment
  | [] => path
  | [s] => close path s true
  | s :: t :: rest => closeAll (close path s false) (t :: rest)

theorem pathState_intercalate (hne : segments ≠ []) (h : ∀ s ∈ segments, ∀ c ∈ s, IsPlain c)
    (path : List Segment) :
    pathState path [] (['/'].intercalate segments) = closeAll path segments := by
  induction segments generalizing path with
  | nil => exact absurd rfl hne
  | cons s rest ih =>
      have hs : ∀ c ∈ s, IsPlain c := h s List.mem_cons_self
      have hrest : ∀ t ∈ rest, ∀ c ∈ t, IsPlain c := fun t ht => h t (List.mem_cons_of_mem s ht)
      cases rest with
      | nil =>
          have hend := pathState_plain hs path [] []
          rw [List.append_nil] at hend
          rw [List.intercalate_singleton, hend]
          rfl
      | cons t rest =>
          rw [List.intercalate_cons_cons, List.append_assoc, List.singleton_append,
            pathState_plain hs, pathState, if_pos (Or.inl rfl), ih (List.cons_ne_nil t rest) hrest]
          rfl

theorem closeAll_of_isLiteral (h : ∀ s ∈ segments, IsLiteral s) (path : List Segment) :
    closeAll path segments = path ++ segments := by
  induction segments generalizing path with
  | nil => exact (List.append_nil path).symm
  | cons s rest ih =>
      have hs : IsLiteral s := h s List.mem_cons_self
      cases rest with
      | nil => exact close_of_isLiteral hs true
      | cons t rest =>
          rw [closeAll, close_of_isLiteral hs, ih fun u hu => h u (List.mem_cons_of_mem s hu),
            List.append_assoc, List.singleton_append]

/-! ## Parsed paths -/

/-- The path of a parsed URL. -/
structure Parsed where
  segments : List Segment
  literal : ∀ s ∈ segments, IsLiteral s

namespace Parsed

/-- The path of an absolute URL whose text after the host and its slash is `text`. -/
def ofText (text : List Char) : Parsed where
  segments := pathState [] [] text
  literal := isLiteral_pathState fun _ h => absurd h List.not_mem_nil

/-- The path of a relative reference that begins with neither a slash, a scheme, a query nor a
fragment: the last segment of the base gives way to it. -/
def resolve (base : Parsed) (reference : List Char) : Parsed where
  segments := pathState base.segments.dropLast [] reference
  literal := isLiteral_pathState fun s h => base.literal s (List.dropLast_subset _ h)

/-- The path with one more, empty, segment. -/
def withSlash (base : Parsed) : Parsed where
  segments := base.segments ++ [[]]
  literal := by
    refine List.forall_mem_append.mpr ⟨base.literal, ?_⟩
    intro s hs
    rw [List.mem_singleton.mp hs]
    exact isLiteral_nil

end Parsed

/-- Plain segments are kept as they are exactly if each of them stands for itself. -/
theorem pathState_eq_append_iff (hne : segments ≠ []) (hplain : ∀ s ∈ segments, ∀ c ∈ s, IsPlain c)
    (hpath : ∀ p ∈ path, IsLiteral p) :
    pathState path [] (['/'].intercalate segments) = path ++ segments ↔
      ∀ s ∈ segments, IsLiteral s := by
  constructor
  · intro h s hs
    have hall : ∀ p ∈ pathState path [] (['/'].intercalate segments), IsLiteral p :=
      isLiteral_pathState hpath
    rw [h] at hall
    exact hall s (List.mem_append_right path hs)
  · intro h
    rw [pathState_intercalate hne hplain, closeAll_of_isLiteral h]

end PackageHarness.UrlPath
