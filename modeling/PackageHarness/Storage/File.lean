/-
# PackageHarness.Storage.File — the run store: one file for each run in a data directory.

`create` and `save` write a temporary file, sync it, give it the name of the run's file and sync the
directory. The temporary is removed when a step before the last one fails; an error of the last step
leaves the new file in place. `loadAll` reads every entry with the extension `json`. The operations
are programs over the requests of a directory, so a crash can fall between any two of them, and
several of them can run at once.
-/
import PackageHarness.Files.Volume
import PackageHarness.Interaction.Callers
import PackageHarness.Model.Run
import PackageHarness.Runner.Ports

namespace PackageHarness

open Interaction

/-- The serialization of run records. `Fits` says which records it can read back. -/
structure RecordFormat (β : Type) where
  toVecPretty : RunRecord → Except String β
  fromSlice : β → Except String RunRecord
  Fits : RunRecord → Prop
  fromSlice_toVecPretty : ∀ {record bytes}, Fits record → toVecPretty record = .ok bytes →
    fromSlice bytes = .ok record.persisted

abbrev FileIo (β : Type) := Program (Files.Request String β) Files.Request.Answer

def FileIo.ask {β : Type} (request : Files.Request String β) : FileIo β request.Answer :=
  Program.perform request

/-- What follows the last dot of a file name, unless nothing is in front of that dot. -/
def extension (name : String) : Option String :=
  if name = ".." then none
  else
    let reversed := name.toList.reverse
    match reversed.dropWhile (· != '.') with
    | [] => none
    | _ :: before =>
        if before.isEmpty then none
        else some (String.ofList (reversed.takeWhile (· != '.')).reverse)

/-- The names of temporary files. -/
def Temporary (name : String) : Prop :=
  ∃ suffix : List Char, (∀ c ∈ suffix, c.isAlphanum = true) ∧ name = ".tmp" ++ String.ofList suffix

structure FileRunStore where
  root : String

namespace FileRunStore

open FileIo

variable {β : Type} (store : FileRunStore) (format : RecordFormat β)

/-- The entry of a run in the data directory. -/
def fileName (run : RunId) : String := run.value ++ ".json"

def display (name : String) : String := store.root ++ "/" ++ name

def syncRoot : FileIo β (Except StoreError Unit) := do
  match ← ask .syncDirectory with
  | .error error => return .error (.io s!"cannot sync data directory: {error}")
  | .ok () => return .ok ()

/-- Removes the temporary file on the way out. -/
def giveUp (temporary : String) (error : StoreError) : FileIo β (Except StoreError Unit) := do
  ask (.discard temporary)
  return .error error

def persistError (destination : String) (createOnly : Bool) (error : Files.IoError) : StoreError :=
  if createOnly && error.kind == .alreadyExists then .alreadyExists
  else .io s!"cannot persist {store.display destination}: {error.text}"

def persist (destination : String) (createOnly : Bool) (temporary : String) :
    FileIo β (Except StoreError Unit) := do
  match ← ask (.persist temporary destination createOnly) with
  | .error error => giveUp temporary (store.persistError destination createOnly error)
  | .ok () => syncRoot

def syncTemporary (destination : String) (createOnly : Bool) (temporary : String) (file : Nat) :
    FileIo β (Except StoreError Unit) := do
  match ← ask (.syncAll file) with
  | .error error => giveUp temporary (.io s!"cannot sync run record: {error}")
  | .ok () => store.persist destination createOnly temporary

def writeTemporary (destination : String) (createOnly : Bool) (bytes : β) (temporary : String)
    (file : Nat) : FileIo β (Except StoreError Unit) := do
  match ← ask (.writeAll file bytes) with
  | .error error => giveUp temporary (.io s!"cannot sync run record: {error}")
  | .ok () => store.syncTemporary destination createOnly temporary file

/-- The part of `atomicWrite` that runs on a blocking thread. -/
def replaceFile (destination : String) (createOnly : Bool) (bytes : β) :
    FileIo β (Except StoreError Unit) := do
  match ← ask .createTemporary with
  | .error error => return .error (.io s!"cannot create temporary file: {error}")
  | .ok (temporary, file) => store.writeTemporary destination createOnly bytes temporary file

def atomicWrite (record : RunRecord) (createOnly : Bool) : FileIo β (Except StoreError Unit) :=
  match format.toVecPretty record with
  | .error error => pure (.error (.invalid error))
  | .ok bytes => do
      match ← ask .spawnBlocking with
      | .error error => return .error (.io error)
      | .ok () => store.replaceFile (fileName record.request.runId) createOnly bytes

theorem atomicWrite_of_error {record : RunRecord} {createOnly : Bool} {error : String}
    (h : format.toVecPretty record = .error error) :
    store.atomicWrite format record createOnly = .pure (.error (.invalid error)) := by
  unfold atomicWrite
  rw [h]
  rfl

theorem atomicWrite_of_ok {record : RunRecord} {createOnly : Bool} {bytes : β}
    (h : format.toVecPretty record = .ok bytes) :
    store.atomicWrite format record createOnly = .request .spawnBlocking fun answer =>
      match answer with
      | .error error => .pure (.error (.io error))
      | .ok () => store.replaceFile (fileName record.request.runId) createOnly bytes := by
  unfold atomicWrite
  rw [h]
  rfl

def create (record : RunRecord) : FileIo β (Except StoreError Unit) :=
  store.atomicWrite format record true

def save (record : RunRecord) : FileIo β (Except StoreError Unit) :=
  store.atomicWrite format record false

def decode (name : String) (bytes : β) : Except StoreError RunRecord :=
  (format.fromSlice bytes).mapError fun error =>
    .invalid s!"invalid run record {store.display name}: {error}"

def readError (name : String) (error : Files.IoError) : StoreError :=
  .io s!"cannot read {store.display name}: {error.text}"

def getError (name : String) (error : Files.IoError) : Except StoreError (Option RunRecord) :=
  if error.kind = .notFound then .ok none else .error (store.readError name error)

def getOpened (path : String) (file : Nat) : FileIo β (Except StoreError (Option RunRecord)) := do
  match ← ask (.readAll file) with
  | .error error => return store.getError path error
  | .ok bytes => return (store.decode format path bytes).map some

def get (runId : RunId) : FileIo β (Except StoreError (Option RunRecord)) := do
  let path := fileName runId
  match ← ask (.openFile path) with
  | .error error => return store.getError path error
  | .ok file => store.getOpened format path file

def collect (records : List RunRecord) :
    Except StoreError RunRecord → List RunRecord ⊕ Except StoreError (List RunRecord)
  | .error error => .inr (.error error)
  | .ok record => .inl (records ++ [record])

def loadOpened (records : List RunRecord) (name : String) (file : Nat) :
    FileIo β (List RunRecord ⊕ Except StoreError (List RunRecord)) := do
  match ← ask (.readAll file) with
  | .error error => return .inr (.error (store.readError name error))
  | .ok bytes => return collect records (store.decode format name bytes)

def loadFile (records : List RunRecord) (name : String) :
    FileIo β (List RunRecord ⊕ Except StoreError (List RunRecord)) := do
  match ← ask (.openFile name) with
  | .error error => return .inr (.error (store.readError name error))
  | .ok file => store.loadOpened format records name file

/-- Other files than those of runs are passed over. -/
def visit (records : List RunRecord) (name : String) :
    FileIo β (List RunRecord ⊕ Except StoreError (List RunRecord)) :=
  if extension name ≠ some "json" then pure (.inl records)
  else store.loadFile format records name

/-- `sort_by_key` of the creation times. -/
def oldestFirst (records : List RunRecord) : List RunRecord :=
  records.mergeSort fun a b => decide (a.createdAt ≤ b.createdAt)

/-- One round of the loop over the directory's entries. -/
def loadEntry (entries : Nat) (records : List RunRecord) :
    FileIo β (List RunRecord ⊕ Except StoreError (List RunRecord)) := do
  match ← ask (.nextEntry entries) with
  | none => return .inr (.ok (oldestFirst records))
  | some (.error error) => return .inr (.error (.io error))
  | some (.ok name) => store.visit format records name

def loadDirectory : FileIo β (Except StoreError (List RunRecord)) := do
  match ← ask .openDirectory with
  | .error error => return .error (.io s!"cannot read {store.root}: {error}")
  | .ok entries => Program.iterate (store.loadEntry format entries) []

def loadAll : FileIo β (Except StoreError (List RunRecord)) := do
  match ← ask .spawnBlocking with
  | .error error => return .error (.io error)
  | .ok () => store.loadDirectory format

end FileRunStore

/-- The operations of the trait `RunStore`. -/
inductive StoreOperation
  | write (record : RunRecord) (createOnly : Bool)
  | get (runId : RunId)
  | loadAll

namespace StoreOperation

@[match_pattern] abbrev create (record : RunRecord) : StoreOperation := .write record true

@[match_pattern] abbrev save (record : RunRecord) : StoreOperation := .write record false

@[reducible] def Answer : StoreOperation → Type
  | write _ _ => Except StoreError Unit
  | get _ => Except StoreError (Option RunRecord)
  | loadAll => Except StoreError (List RunRecord)

end StoreOperation

def FileRunStore.perform {β : Type} (store : FileRunStore) (format : RecordFormat β) :
    (op : StoreOperation) → FileIo β op.Answer
  | .create record => store.create format record
  | .save record => store.save format record
  | .get runId => store.get format runId
  | .loadAll => store.loadAll format

/-! ## File names -/

theorem extension_fileName {run : RunId} (h : run.value ≠ "") :
    extension (FileRunStore.fileName run) = some "json" := by
  have hchars : (FileRunStore.fileName run).toList.reverse
      = 'n' :: 'o' :: 's' :: 'j' :: '.' :: run.value.toList.reverse := by
    simp [FileRunStore.fileName]
  have hdots : FileRunStore.fileName run ≠ ".." := by
    intro heq
    rw [heq] at hchars
    cases hchars
  have hempty : run.value.toList.reverse.isEmpty = false := by simpa using h
  rw [extension, if_neg hdots, hchars]
  show (if run.value.toList.reverse.isEmpty then none else some "json") = some "json"
  rw [hempty]
  rfl

theorem extension_temporary {name : String} (h : Temporary name) :
    extension name ≠ some "json" := by
  obtain ⟨suffix, hsuffix, rfl⟩ := h
  have hchars : (".tmp" ++ String.ofList suffix).toList.reverse
      = suffix.reverse ++ ['p', 'm', 't', '.'] := by simp
  -- the only dot is the first character
  have hdrop : (suffix.reverse ++ ['p', 'm', 't', '.']).dropWhile (· != '.') = ['.'] := by
    rw [List.dropWhile_append_of_pos]
    · rfl
    · intro c hc
      have halnum := hsuffix c (List.mem_reverse.mp hc)
      refine bne_iff_ne.mpr ?_
      rintro rfl
      cases halnum
  rw [extension]
  split
  · intro heq
    cases heq
  · rw [hchars]
    dsimp only
    rw [hdrop]
    intro heq
    cases heq

/-- No temporary file is a run's file: its only dot is in front. -/
theorem ne_fileName_of_temporary {name : String} (h : Temporary name) (run : RunId) :
    name ≠ FileRunStore.fileName run := by
  obtain ⟨suffix, hsuffix, rfl⟩ := h
  intro heq
  have hchars : '.' :: 't' :: 'm' :: 'p' :: suffix
      = run.value.toList ++ ['.', 'j', 's', 'o', 'n'] := by
    simpa [FileRunStore.fileName] using congrArg String.toList heq
  cases hrun : run.value.toList with
  | nil =>
      rw [hrun] at hchars
      cases hchars
  | cons first rest =>
      rw [hrun, List.cons_append, List.cons.injEq] at hchars
      have hdot : '.' ∈ 't' :: 'm' :: 'p' :: suffix := by
        rw [hchars.2]
        simp
      have hsuffixDot : '.' ∈ suffix := by simpa using hdot
      cases hsuffix '.' hsuffixDot

theorem fileName_injective {run other : RunId}
    (h : FileRunStore.fileName run = FileRunStore.fileName other) : run = other := by
  have hvalue : run.value = other.value := by simpa [FileRunStore.fileName] using h
  cases run
  cases other
  cases hvalue
  rfl

end PackageHarness
