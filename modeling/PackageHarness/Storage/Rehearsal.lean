/-
# PackageHarness.Storage.Rehearsal — the file store at work, and one run of it.

A directory that refuses nothing lets a save through and shows the record to those who read it
then. The sample run saves a record, loses power, and reads the record in both ways.
-/
import PackageHarness.Storage.Alone
import PackageHarness.Storage.Formats
import PackageHarness.System.Scenario

namespace PackageHarness

open Interaction Files

/-! ## Operations that succeed -/

namespace FileRunStore

variable {β : Type} {store : FileRunStore} {format : RecordFormat β} {v : Volume String β}

theorem answered {α : Type} {request : Request String β} {next : request.Answer → FileIo β α}
    {c : FileIo β α × Volume String β} (answer : request.Answer) (after : Volume String β)
    (h : v.Answers Temporary request answer after)
    (hrest : Reaches fileSystem (next answer, after) c) :
    Reaches fileSystem (.request request next, v) c :=
  .head (.answer h) hrest

/-- The directory after a save that went through. -/
def saved (v : Volume String β) (temporary : String) (run : RunId) (bytes : β) : Volume String β :=
  let written := (v.create temporary bytes).put v.inodes.length ⟨bytes, false⟩
  ((written.flush v.inodes.length).rename temporary (fileName run)).syncDirectory

theorem save_reaches {record : RunRecord} {bytes : β} {temporary : String}
    (hbytes : format.toVecPretty record = .ok bytes) (htemporary : Temporary temporary)
    (hfree : v.names temporary = none) :
    Reaches fileSystem (store.save format record, v)
      (.pure (.ok ()), saved v temporary record.id bytes) := by
  rw [save, atomicWrite_of_ok store format hbytes]
  refine answered (.ok ()) v rfl ?_
  refine answered (.ok (temporary, v.inodes.length)) (v.create temporary bytes)
    ⟨htemporary, hfree, rfl, bytes, rfl⟩ ?_
  refine answered (.ok ()) _ rfl ?_
  refine answered (.ok ()) _ rfl ?_
  refine answered (.ok ()) _ ⟨nofun, rfl⟩ ?_
  exact answered (.ok ()) _ rfl .refl

/-- A save leaves no other name behind than that of the run's file. -/
theorem names_saved_of_ne {temporary name : String} {run : RunId} {bytes : β}
    (hfree : v.names temporary = none) (h : name ≠ fileName run) :
    (saved v temporary run bytes).names name = v.names name := by
  rw [saved, Volume.names_syncDirectory]
  by_cases hname : name = temporary
  · rw [hname, Volume.rename, Volume.names_link_same, hfree]
  · rw [Volume.names_rename_of_ne _ hname h]
    exact Volume.names_create_of_ne v bytes hname

theorem get_reaches {run : RunId} {file : Nat} {bytes : β} {record : RunRecord}
    (hnamed : v.names (fileName run) = some file)
    (hcontent : (v.inodes[file]?).map Inode.content = some bytes)
    (hbytes : format.fromSlice bytes = .ok record) :
    Reaches fileSystem (store.get format run, v) (.pure (.ok (some record)), v) := by
  refine answered (.ok file) v ⟨hnamed, rfl⟩ ?_
  refine answered (.ok bytes) v ⟨hcontent, rfl⟩ ?_
  show Reaches fileSystem (.pure ((store.decode format (fileName run) bytes).map some), v) _
  rw [decode, hbytes]
  exact .refl

/-- The directory after its only file was listed. -/
def listed (v : Volume String β) (name : String) : Volume String β :=
  v.openDirectory.reveal v.streams.length name

theorem loadAll_reaches {run : RunId} {file : Nat} {bytes : β} {record : RunRecord}
    (hid : run.value ≠ "") (hnamed : v.names (fileName run) = some file)
    (honly : ∀ name, v.names name ≠ none → name = fileName run)
    (hcontent : (v.inodes[file]?).map Inode.content = some bytes)
    (hbytes : format.fromSlice bytes = .ok record) :
    Reaches fileSystem (store.loadAll format, v)
      (.pure (.ok [record]), listed v (fileName run)) := by
  have hopened : v.openDirectory.streams[v.streams.length]?
      = some ⟨fun name => v.names name ≠ none, []⟩ := by simp [Volume.openDirectory]
  have hlisted : (listed v (fileName run)).streams[v.streams.length]?
      = some ⟨fun name => v.names name ≠ none, [fileName run]⟩ := by
    simp [listed, Volume.reveal, hopened]
  refine answered (.ok ()) v rfl ?_
  refine answered (.ok v.streams.length) v.openDirectory ⟨rfl, rfl⟩ ?_
  refine .head .unroll ?_
  refine answered (some (.ok (fileName run))) (listed v (fileName run)) ⟨?_, ?_, rfl⟩ ?_
  · rw [show v.openDirectory.names (fileName run) = some file from hnamed]
    simp
  · intro s hs
    rw [hopened] at hs
    cases hs
    simp
  show Reaches fileSystem (Program.bind (store.visit format [] (fileName run)) _, _) _
  rw [visit, if_neg (by simp [extension_fileName hid])]
  refine answered (.ok file) _ ⟨hnamed, rfl⟩ ?_
  refine answered (.ok bytes) _ ⟨hcontent, rfl⟩ ?_
  show Reaches fileSystem (Program.bind
    (.pure (collect [] (store.decode format (fileName run) bytes))) _, _) _
  rw [decode, hbytes]
  refine .head .unroll ?_
  refine answered none _ ⟨?_, rfl⟩ ?_
  · intro s hs name hname _
    rw [hlisted] at hs
    cases hs
    rw [honly name hname]
    exact List.mem_singleton_self _
  · show Reaches fileSystem (.pure (Except.ok (oldestFirst [record])), _) _
    rw [oldestFirst, List.mergeSort_singleton]
    exact .refl

end FileRunStore

/-! ## The sample run -/

namespace Sample

/-- Every text is a name, and only the epoch is a time. -/
def foreign : ForeignTexts where
  readDnpName text := some ⟨text⟩
  readPackageRef text := some ⟨text⟩
  writeTimestamp _ := "1970-01-01T00:00:00Z"
  readTimestamp text := if text = "1970-01-01T00:00:00Z" then some 0 else none
  dnpName h := by cases h; rfl
  packageRef h := by cases h; rfl
  timestamp {text time} h := by
    split at h
    · cases h
      rfl
    · cases h

def files : RecordFormat String := RunRecord.files foreign fun _ => .error "expected value at line 1"

def store : FileRunStore := ⟨"/data"⟩

def claimed : RunRecord := .claimed request "claim-token-1" 0

def bytes : String := ((RunRecord.format foreign).write claimed).renderPretty 0

theorem fits_claimed : files.Fits claimed := by
  have hsource : RunSource.format.Fits request.source :=
    ⟨trivial, (by decide : 7 < 2 ^ 64), trivial⟩
  have hpackage : (PackageRequest.format foreign).Fits request.package := ⟨rfl, rfl, nofun⟩
  exact RunRecord.fits_claimed ⟨(by decide : 1 < 2 ^ 8), rfl, hsource, hpackage⟩ rfl

/-- The save of the claimed job, in an empty directory. -/
def afterSave : Volume String String := FileRunStore.saved .empty ".tmpA" run bytes

theorem saved_claimed : Reaches fileSystem (store.save files claimed, .empty)
    (.pure (.ok ()), afterSave) :=
  FileRunStore.save_reaches rfl ⟨['A'], List.forall_mem_singleton.2 rfl, rfl⟩ rfl

theorem fromSlice_bytes : files.fromSlice bytes = .ok claimed :=
  files.fromSlice_toVecPretty fits_claimed rfl

theorem losesPower_afterSave : afterSave.LosesPower afterSave where
  names := ⟨[], .refl _, rfl⟩
  changes := rfl
  length := rfl
  contents _ _ h := h

theorem names_afterSave : afterSave.names (FileRunStore.fileName run) = some 0 := by
  decide

theorem only_afterSave : ∀ name, afterSave.names name ≠ none →
    name = FileRunStore.fileName run := by
  intro name hname
  by_contra hne
  exact hname (FileRunStore.names_saved_of_ne rfl hne)

theorem content_afterSave : (afterSave.inodes[0]?).map Inode.content = some bytes := rfl

abbrev StoreInUse := Shared Nat StoreOperation.Answer (Request String String) Request.Answer
  (Volume String String)

/-- The job is saved. -/
theorem saves {s : StoreInUse} {caller : Nat} (hworld : s.world = .empty)
    (hunused : s.tasks caller = .unused) :
    (store.inUse Nat files).History s
      [.called caller (.save claimed), .answered caller (.save claimed) (.ok ())]
      ({ s with world := afterSave }.set caller .closed) :=
  Shared.serves hunused ⟨fits_claimed, by decide⟩ (by rw [hworld]; exact saved_claimed)

/-- It is found by its id. -/
theorem gets {s : StoreInUse} {caller : Nat} (hworld : s.world = afterSave)
    (hunused : s.tasks caller = .unused) :
    (store.inUse Nat files).History s
      [.called caller (.get run), .answered caller (.get run) (.ok (some claimed))]
      ({ s with world := afterSave }.set caller .closed) := by
  refine Shared.serves hunused trivial ?_
  rw [hworld]
  exact FileRunStore.get_reaches names_afterSave content_afterSave fromSlice_bytes

/-- It is all there is. -/
theorem lists {s : StoreInUse} {caller : Nat} (hworld : s.world = afterSave)
    (hunused : s.tasks caller = .unused) :
    (store.inUse Nat files).History s
      [.called caller .loadAll, .answered caller .loadAll (.ok [claimed])]
      ({ s with world := FileRunStore.listed afterSave (FileRunStore.fileName run) }.set caller
        .closed) := by
  refine Shared.serves hunused trivial ?_
  rw [hworld]
  exact FileRunStore.loadAll_reaches (by decide) names_afterSave only_afterSave content_afterSave
    fromSlice_bytes

/-- A save, a power loss, and both ways to read the record. -/
def events : List (StoreEvent Nat) :=
  [.called 0 (.save claimed), .answered 0 (.save claimed) (.ok ()), .interrupted .power,
    .called 1 (.get run), .answered 1 (.get run) (.ok (some claimed)),
    .called 2 .loadAll, .answered 2 .loadAll (.ok [claimed])]

theorem history : ∃ x, (store.inUse Nat files).History (.start .empty) events x := by
  let s₁ : StoreInUse := Shared.set ⟨fun _ => .unused, afterSave⟩ 0 .closed
  let s₂ : StoreInUse := ⟨fun caller => (s₁.tasks caller).stop, afterSave⟩
  have hsaved : (store.inUse Nat files).History (.start .empty)
      [.called 0 (.save claimed), .answered 0 (.save claimed) (.ok ())] s₁ := saves rfl rfl
  have hstruck : (store.inUse Nat files).step s₁ (some (.interrupted .power)) s₂ :=
    .interrupt losesPower_afterSave
  have hfound : (store.inUse Nat files).History s₂
      [.called 1 (.get run), .answered 1 (.get run) (.ok (some claimed))]
      ({ s₂ with world := afterSave }.set 1 .closed) := gets rfl rfl
  exact ⟨_, ((hsaved.event hstruck).trans hfound).trans (lists rfl rfl)⟩

/-- The same where the process dies during a second save instead. -/
def calls : List (StoreExchange Nat) :=
  [.answered 0 (.save claimed) (.ok ()), .cut 1 (.save claimed),
    .answered 2 (.get run) (.ok (some claimed))]

theorem sequential_history :
    ∃ x, (store.inUse Nat files).History (.start .empty)
      (calls.flatMap StoreExchange.events) x := by
  let s₁ : StoreInUse := Shared.set ⟨fun _ => .unused, afterSave⟩ 0 .closed
  let s₂ : StoreInUse := s₁.set 1 (.running (.save claimed) (store.save files claimed))
  let s₃ : StoreInUse := ⟨fun caller => (s₂.tasks caller).stop, afterSave⟩
  have hsaved : (store.inUse Nat files).History (.start .empty)
      [.called 0 (.save claimed), .answered 0 (.save claimed) (.ok ())] s₁ := saves rfl rfl
  have hcalled : (store.inUse Nat files).step s₁ (some (.called 1 (.save claimed))) s₂ :=
    .call rfl ⟨fits_claimed, by decide⟩
  have hkilled : (store.inUse Nat files).step s₂ (some (.interrupted .process)) s₃ :=
    .interrupt rfl
  exact ⟨_, ((hsaved.event hcalled).event hkilled).trans (gets rfl rfl)⟩

end Sample

end PackageHarness
