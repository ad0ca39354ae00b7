/-
# PackageHarness.Files.Volume — a directory of files on a volume that may lose power.

A file is an inode, and the directory maps names to inodes. What was written to a file reaches the
medium at the latest when the file is synced; what happened to a name does so at the latest when
the directory is synced. A power loss therefore keeps the names as of the last sync of the
directory, any of the changes since then in their order, and the contents of the synced files; a
file that was not synced may hold anything. `Answers` says what the operations of such a directory
do, for any number of programs that use it at once.

Nothing in this module mentions a particular program.
-/
import Mathlib.Data.List.Infix
import PackageHarness.Interaction.Program

namespace PackageHarness.Files

/-- A file: what it holds, and whether that is known to be on the medium. -/
structure Inode (β : Type) where
  content : β
  stable : Bool

/-- An open directory: the names that were in it at the opening, and those shown so far. -/
structure Stream (ν : Type) where
  opening : ν → Prop
  shown : List ν

structure Volume (ν β : Type) where
  inodes : List (Inode β)
  /-- The names as of the last sync of the directory. -/
  synced : ν → Option Nat
  /-- What happened to names since then, oldest first. -/
  changes : List (ν × Option Nat)
  streams : List (Stream ν)

/-! ## Operations -/

inductive ErrorKind
  | notFound
  | alreadyExists
  | other
  deriving DecidableEq

structure IoError where
  kind : ErrorKind
  text : String

/-- What a program may ask of the directory. Files are named by their inode once they are open. -/
inductive Request (ν β : Type)
  | spawnBlocking
  | createTemporary
  | writeAll (file : Nat) (bytes : β)
  | syncAll (file : Nat)
  | persist (temporary destination : ν) (noclobber : Bool)
  | discard (temporary : ν)
  | syncDirectory
  | openFile (name : ν)
  | readAll (file : Nat)
  | openDirectory
  | nextEntry (stream : Nat)

@[reducible] def Request.Answer {ν β : Type} : Request ν β → Type
  | spawnBlocking => Except String Unit
  | createTemporary => Except String (ν × Nat)
  | writeAll _ _ => Except String Unit
  | syncAll _ => Except String Unit
  | persist _ _ _ => Except IoError Unit
  | discard _ => Unit
  | syncDirectory => Except String Unit
  | openFile _ => Except IoError Nat
  | readAll _ => Except IoError β
  | openDirectory => Except String Nat
  | nextEntry _ => Option (Except String ν)

namespace Volume

variable {ν β : Type}

section Changes

variable (v : Volume ν β)

def empty : Volume ν β := ⟨[], fun _ => none, [], []⟩

def link (name : ν) (target : Option Nat) : Volume ν β :=
  { v with changes := v.changes ++ [(name, target)] }

/-- A new name for a new file. -/
def create (name : ν) (blank : β) : Volume ν β :=
  { v.link name (some v.inodes.length) with inodes := v.inodes ++ [⟨blank, false⟩] }

def put (file : Nat) (inode : Inode β) : Volume ν β :=
  { v with inodes := v.inodes.set file inode }

def flush (file : Nat) : Volume ν β :=
  { v with inodes := v.inodes.modify file fun inode => { inode with stable := true } }

def reveal (stream : Nat) (name : ν) : Volume ν β :=
  { v with streams := v.streams.modify stream fun s => { s with shown := s.shown ++ [name] } }

end Changes

section Names

variable [DecidableEq ν] (v : Volume ν β)

/-- The last change to each name wins. -/
def follow (names : ν → Option Nat) (changes : List (ν × Option Nat)) (name : ν) : Option Nat :=
  ((changes.filter fun change => change.1 = name).getLast?.map Prod.snd).getD (names name)

/-- The inode that a name leads to. -/
def names (name : ν) : Option Nat := follow v.synced v.changes name

/-- What happened to a name since the last sync of the directory, oldest first. -/
def changesOf (name : ν) : List (Option Nat) :=
  (v.changes.filter fun change => change.1 = name).map Prod.snd

def rename (source destination : ν) : Volume ν β :=
  (v.link destination (v.names source)).link source none

def syncDirectory : Volume ν β := { v with synced := v.names, changes := [] }

def openDirectory : Volume ν β :=
  { v with streams := v.streams ++ [⟨fun name => v.names name ≠ none, []⟩] }

/-- How an operation is answered and what it leaves behind. New files get a name that is
`temporary`; an entry that is in the directory from its opening on is shown before the end, and none
is shown twice. -/
def Answers (temporary : ν → Prop) (v : Volume ν β) :
    (request : Request ν β) → request.Answer → Volume ν β → Prop
  | .spawnBlocking, _, after => after = v
  | .createTemporary, .error _, after => after = v
  | .createTemporary, .ok (name, file), after =>
      temporary name ∧ v.names name = none ∧ file = v.inodes.length ∧
        ∃ blank, after = v.create name blank
  | .writeAll file bytes, .ok _, after => after = v.put file ⟨bytes, false⟩
  -- a write that fails may have been carried out in part
  | .writeAll file _, .error _, after => ∃ torn, after = v.put file ⟨torn, false⟩
  | .syncAll file, .ok _, after => after = v.flush file
  -- what was written may be dropped when it cannot be synced
  | .syncAll file, .error _, after => ∃ torn, after = v.put file ⟨torn, false⟩
  | .persist source destination noclobber, .ok _, after =>
      (noclobber = true → v.names destination = none) ∧ after = v.rename source destination
  | .persist _ destination noclobber, .error error, after =>
      (noclobber = true → error.kind = .alreadyExists → v.names destination ≠ none) ∧ after = v
  | .discard name, _, after => after = v ∨ after = v.link name none
  | .syncDirectory, .ok _, after => after = v.syncDirectory
  | .syncDirectory, .error _, after => after = v
  | .openFile name, .ok file, after => v.names name = some file ∧ after = v
  | .openFile name, .error error, after =>
      (error.kind = .notFound → v.names name = none) ∧ after = v
  | .readAll file, .ok bytes, after => (v.inodes[file]?).map Inode.content = some bytes ∧ after = v
  | .readAll _, .error error, after => error.kind ≠ .notFound ∧ after = v
  | .openDirectory, .ok stream, after => stream = v.streams.length ∧ after = v.openDirectory
  | .openDirectory, .error _, after => after = v
  | .nextEntry stream, none, after =>
      (∀ s, v.streams[stream]? = some s →
        ∀ name, s.opening name → v.names name ≠ none → name ∈ s.shown) ∧ after = v
  | .nextEntry _, some (.error _), after => after = v
  | .nextEntry stream, some (.ok name), after =>
      v.names name ≠ none ∧ (∀ s, v.streams[stream]? = some s → name ∉ s.shown) ∧
        after = v.reveal stream name

/-- What a power loss may leave behind. -/
structure LosesPower (v after : Volume ν β) : Prop where
  names : ∃ kept, kept.Sublist v.changes ∧ after.synced = follow v.synced kept
  changes : after.changes = []
  length : after.inodes.length = v.inodes.length
  contents : ∀ (file : Nat) (content : β), v.inodes[file]? = some ⟨content, true⟩ →
    after.inodes[file]? = some ⟨content, true⟩

/-! ## Names -/

theorem follow_of_getLast? {names : ν → Option Nat} {changes : List (ν × Option Nat)} {name : ν} :
    follow names changes name =
      (((changes.filter fun change => change.1 = name).map Prod.snd).getLast?).getD
        (names name) := by
  rw [follow, List.getLast?_map]

/-- A name is as it was synced, or as the last change since made it. -/
theorem names_eq (name : ν) : v.names name = (v.changesOf name).getLast?.getD (v.synced name) :=
  follow_of_getLast?

@[simp] theorem names_syncDirectory (name : ν) : v.syncDirectory.names name = v.names name := rfl

@[simp] theorem changesOf_link_same (name : ν) (target : Option Nat) :
    (v.link name target).changesOf name = v.changesOf name ++ [target] := by
  simp [link, changesOf]

theorem changesOf_link_of_ne {name other : ν} (target : Option Nat) (h : other ≠ name) :
    (v.link name target).changesOf other = v.changesOf other := by
  simp [link, changesOf, Ne.symm h]

@[simp] theorem names_link_same (name : ν) (target : Option Nat) :
    (v.link name target).names name = target := by
  simp [names_eq]

theorem names_link_of_ne {name other : ν} (target : Option Nat) (h : other ≠ name) :
    (v.link name target).names other = v.names other := by
  rw [names_eq, names_eq, changesOf_link_of_ne v target h]
  rfl

theorem mem_changes_of_changesOf {name : ν} {target : Option Nat} (h : target ∈ v.changesOf name) :
    (name, target) ∈ v.changes := by
  obtain ⟨⟨other, target'⟩, hmem, rfl⟩ := List.mem_map.mp h
  obtain ⟨hchange, hname⟩ := List.mem_filter.mp hmem
  have heq : other = name := by simpa using hname
  rw [← heq]
  exact hchange

theorem names_rename_destination {source destination : ν} (h : destination ≠ source) :
    (v.rename source destination).names destination = v.names source := by
  rw [rename, names_link_of_ne _ _ h, names_link_same]

theorem names_rename_of_ne {source destination other : ν} (hsource : other ≠ source)
    (hdestination : other ≠ destination) :
    (v.rename source destination).names other = v.names other := by
  rw [rename, names_link_of_ne _ _ hsource, names_link_of_ne _ _ hdestination]

theorem names_create_same (name : ν) (blank : β) :
    (v.create name blank).names name = some v.inodes.length :=
  names_link_same v name _

theorem names_create_of_ne {name other : ν} (blank : β) (h : other ≠ name) :
    (v.create name blank).names other = v.names other :=
  names_link_of_ne v _ h

/-- After a power loss a name is as it was synced, or as one of the changes since made it. -/
theorem LosesPower.name {v after : Volume ν β} (h : v.LosesPower after) (name : ν) :
    after.synced name = v.synced name ∨ after.synced name ∈ v.changesOf name := by
  obtain ⟨kept, hkept, hsynced⟩ := h.names
  rw [hsynced, follow_of_getLast?]
  cases hlast : ((kept.filter fun change => change.1 = name).map Prod.snd).getLast? with
  | none => exact Or.inl rfl
  | some target =>
      right
      have hmem := List.mem_of_getLast? hlast
      exact ((hkept.filter _).map _).subset hmem

end Names

/-! ## Inodes -/

variable (v : Volume ν β)

theorem inodes_create_of_lt {name : ν} {blank : β} {file : Nat} (h : file < v.inodes.length) :
    (v.create name blank).inodes[file]? = v.inodes[file]? := by
  simp [create, List.getElem?_append_left h]

theorem inodes_create_new (name : ν) (blank : β) :
    (v.create name blank).inodes[v.inodes.length]? = some ⟨blank, false⟩ := by
  simp [create]

theorem inodes_put_of_ne {file other : Nat} {inode : Inode β} (h : other ≠ file) :
    (v.put file inode).inodes[other]? = v.inodes[other]? := by
  simp [put, List.getElem?_set_ne (Ne.symm h)]

theorem inodes_put_same {file : Nat} {inode inode' : Inode β} (h : v.inodes[file]? = some inode) :
    (v.put file inode').inodes[file]? = some inode' := by
  simp [put, List.getElem?_set_self (List.getElem?_eq_some_iff.mp h).1]

theorem inodes_flush_same {file : Nat} {inode : Inode β} (h : v.inodes[file]? = some inode) :
    (v.flush file).inodes[file]? = some ⟨inode.content, true⟩ := by
  simp [flush, h]

theorem inodes_flush_of_ne {file other : Nat} (h : other ≠ file) :
    (v.flush file).inodes[other]? = v.inodes[other]? := by
  simp [flush, Ne.symm h]

end Volume

end PackageHarness.Files
