/-
# PackageHarness.Storage.Progress — where a call of the run store is, and what others do to it.

A call owns what it has opened: a writer its temporary file, a listing its directory stream. What
the others do spares it: they neither touch what the call owns nor take a run's file away. The
standing of a call changes meanwhile only as `Evolves` says.
-/
import PackageHarness.Storage.Correspondence

namespace PackageHarness

open Interaction Files FileRunStore

/-! ## What a call owns -/

inductive Resource
  | file (file : Nat)
  | stream (stream : Nat)

section Spares

variable {β : Type}

def Resource.Exists (v : Volume String β) : Resource → Prop
  | .file n => n < v.inodes.length
  | .stream n => n < v.streams.length

/-- What a call that owns `own` can rely on while others work. -/
structure Spares (own : Option Resource) (v v' : Volume String β) : Prop where
  frozen : ∀ (file : Nat) (content : β), v.inodes[file]? = some ⟨content, true⟩ →
    v'.inodes[file]? = some ⟨content, true⟩
  kept : ∀ run, v.names (fileName run) ≠ none → v'.names (fileName run) ≠ none
  file : ∀ file, own = some (.file file) → v'.inodes[file]? = v.inodes[file]?
  temporary : ∀ file name, own = some (.file file) → Temporary name → v.names name = some file →
    v'.names name = some file
  stream : ∀ stream, own = some (.stream stream) → v'.streams[stream]? = v.streams[stream]?

/-- The call owns something that is there and is not `mine`. -/
def Foreign (v : Volume String β) (mine own : Option Resource) : Prop :=
  ∀ resource, own = some resource → resource.Exists v ∧ mine ≠ some resource

variable {v : Volume String β} {mine own : Option Resource}

theorem Spares.refl (own : Option Resource) (v : Volume String β) : Spares own v v :=
  ⟨fun _ _ h => h, fun _ h => h, fun _ _ => rfl, fun _ _ _ _ h => h, fun _ _ => rfl⟩

theorem spares_put {file : Nat} {inode inode' : Inode β} (hfile : v.inodes[file]? = some inode)
    (hunsynced : inode.stable = false) (hforeign : Foreign v (some (.file file)) own) :
    Spares own v (v.put file inode') where
  frozen := (quiet_put hfile hunsynced).frozen
  kept _ h := h
  file other hown := by
    refine Volume.inodes_put_of_ne v ?_
    rintro rfl
    exact (hforeign _ hown).2 rfl
  temporary _ _ _ _ h := h
  stream _ _ := rfl

theorem spares_flush {file : Nat} (hforeign : Foreign v (some (.file file)) own) :
    Spares own v (v.flush file) where
  frozen := (quiet_flush file).frozen
  kept _ h := h
  file other hown := by
    refine Volume.inodes_flush_of_ne v ?_
    rintro rfl
    exact (hforeign _ hown).2 rfl
  temporary _ _ _ _ h := h
  stream _ _ := rfl

theorem spares_create {name : String} (htemporary : Temporary name) (hfresh : v.names name = none)
    (blank : β) (hforeign : Foreign v mine own) : Spares own v (v.create name blank) where
  frozen := (quiet_create htemporary blank).frozen
  kept run h := by
    rw [Volume.names_create_of_ne v blank (ne_fileName_of_temporary htemporary run).symm]
    exact h
  file file hown := Volume.inodes_create_of_lt v (hforeign _ hown).1
  temporary file other _ _ hnamed := by
    -- a name that leads somewhere is not the fresh one
    have hne : other ≠ name := by
      rintro rfl
      rw [hfresh] at hnamed
      cases hnamed
    rw [Volume.names_create_of_ne v blank hne]
    exact hnamed
  stream _ _ := rfl

theorem spares_discard {name : String} {file : Nat} (htemporary : Temporary name)
    (hnamed : v.names name = some file) (hforeign : Foreign v (some (.file file)) own) :
    Spares own v (v.link name none) where
  frozen _ _ h := h
  kept run h := by
    rw [Volume.names_link_of_ne v none (ne_fileName_of_temporary htemporary run).symm]
    exact h
  file _ _ := rfl
  temporary other name' hown _ hother := by
    have hne : name' ≠ name := by
      rintro rfl
      rw [hnamed] at hother
      cases hother
      exact (hforeign _ hown).2 rfl
    rw [Volume.names_link_of_ne v none hne]
    exact hother
  stream _ _ := rfl

theorem spares_rename {name : String} {file : Nat} {run : RunId} (htemporary : Temporary name)
    (hnamed : v.names name = some file) (hforeign : Foreign v (some (.file file)) own) :
    Spares own v (v.rename name (fileName run)) where
  frozen _ _ h := h
  kept other h := by
    have hne := (ne_fileName_of_temporary htemporary other).symm
    by_cases heq : fileName other = fileName run
    · rw [heq] at hne ⊢
      rw [Volume.names_rename_destination v hne, hnamed]
      simp
    · rw [Volume.names_rename_of_ne v hne heq]
      exact h
  file _ _ := rfl
  temporary other name' hown htemporary' hother := by
    have hne : name' ≠ name := by
      rintro rfl
      rw [hnamed] at hother
      cases hother
      exact (hforeign _ hown).2 rfl
    rw [Volume.names_rename_of_ne v hne (ne_fileName_of_temporary htemporary' run)]
    exact hother
  stream _ _ := rfl

theorem spares_syncDirectory : Spares own v v.syncDirectory :=
  ⟨fun _ _ h => h, fun _ h => h, fun _ _ => rfl, fun _ _ _ _ h => h, fun _ _ => rfl⟩

theorem spares_openDirectory (hforeign : Foreign v mine own) : Spares own v v.openDirectory where
  frozen _ _ h := h
  kept _ h := h
  file _ _ := rfl
  temporary _ _ _ _ h := h
  stream _ hown := List.getElem?_append_left (hforeign _ hown).1

theorem spares_reveal {stream : Nat} {name : String}
    (hforeign : Foreign v (some (.stream stream)) own) : Spares own v (v.reveal stream name) where
  frozen _ _ h := h
  kept _ h := h
  file _ _ := rfl
  temporary _ _ _ _ h := h
  stream other hown := by
    have hne : other ≠ stream := by
      rintro rfl
      exact (hforeign _ hown).2 rfl
    simp [Volume.reveal, Ne.symm hne]

end Spares

/-! ## Where a call is -/

/-- The requests of the run store against a directory. -/
def fileSystem {β : Type} :
    Semantics (Request String β) Request.Answer (Volume String β) where
  answer v request answer after := v.Answers Temporary request answer after
  drift _ _ _ := False

section Positions

variable {C β : Type} (store : FileRunStore) (format : RecordFormat β) (v : Volume String β)

/-- Where a write is, what it owns, and how far it has come. -/
inductive Writing (record : RunRecord) (createOnly : Bool) :
    FileIo β (Except StoreError Unit) → Option Resource → Standing C → Prop
  | begun : Writing record createOnly (store.atomicWrite format record createOnly) none
      (.pending (.write record createOnly))
  | creating {bytes : β} : format.toVecPretty record = .ok bytes →
      Writing record createOnly (store.replaceFile (fileName record.id) createOnly bytes) none
        (.pending (.write record createOnly))
  | writing {bytes blank : β} {temporary : String} {file : Nat} :
      format.toVecPretty record = .ok bytes → Temporary temporary →
      v.names temporary = some file → v.inodes[file]? = some ⟨blank, false⟩ →
      Writing record createOnly
        (store.writeTemporary (fileName record.id) createOnly bytes temporary file)
        (some (.file file)) (.pending (.write record createOnly))
  | syncing {bytes : β} {temporary : String} {file : Nat} :
      format.toVecPretty record = .ok bytes → Temporary temporary →
      v.names temporary = some file → v.inodes[file]? = some ⟨bytes, false⟩ →
      Writing record createOnly
        (store.syncTemporary (fileName record.id) createOnly temporary file)
        (some (.file file)) (.pending (.write record createOnly))
  | persisting {bytes : β} {temporary : String} {file : Nat} :
      format.toVecPretty record = .ok bytes → Temporary temporary →
      v.names temporary = some file → v.inodes[file]? = some ⟨bytes, true⟩ →
      Writing record createOnly (store.persist (fileName record.id) createOnly temporary)
        (some (.file file)) (.pending (.write record createOnly))
  | givingUp {temporary : String} {file : Nat} {error : StoreError} {standing : Standing C} :
      Temporary temporary → v.names temporary = some file → file < v.inodes.length →
      standing.Justifies (.write record createOnly) (.error error) →
      Writing record createOnly (giveUp temporary error) (some (.file file)) standing
  | rooting {durable : Bool} :
      Writing record createOnly syncRoot none (.applied (.write record createOnly) durable)
  | finished {answer : Except StoreError Unit} {standing : Standing C} :
      standing.Justifies (.write record createOnly) answer →
      Writing record createOnly (.pure answer) none standing

inductive Getting (run : RunId) :
    FileIo β (Except StoreError (Option RunRecord)) → Standing C → Prop
  | begun : Getting run (store.get format run) (.pending (.get run))
  | reading {file : Nat} {w : Written C} : Frozen format v file w.record →
      Getting run (store.getOpened format (fileName run) file) (.found run (some w))
  | finished {answer : Except StoreError (Option RunRecord)} {standing : Standing C} :
      standing.Justifies (.get run) answer → Getting run (.pure answer) standing

/-- What a listing has collected: the records of the run files that its stream has shown, but for
those that are `ahead`. -/
structure Collected (stream : Nat) (records : List RunRecord) (ahead : List String)
    (there : RunId → Prop) (offers : RunId → Written C → Prop) : Prop where
  shown : ∃ s, v.streams[stream]? = some s ∧ s.shown.Nodup ∧
    (∀ run, there run → run.value ≠ "" ∧ s.opening (fileName run)) ∧
    s.shown.filter (fun name => extension name = some "json")
      = records.map (fun record => fileName record.id) ++ ahead
  there : ∀ run, there run → v.names (fileName run) ≠ none
  offered : ∀ record ∈ records, ∃ w, offers record.id w ∧ w.record = record

/-- The rest of a round of the loop over the entries. -/
def afterEntry (stream : Nat) : (List RunRecord ⊕ Except StoreError (List RunRecord)) →
    FileIo β (Except StoreError (List RunRecord)) :=
  .afterRound (store.loadEntry format stream) .pure

inductive Loading : FileIo β (Except StoreError (List RunRecord)) → Option Resource →
    Standing C → Prop
  | begun {there : RunId → Prop} {offers : RunId → Written C → Prop} :
      Loading (store.loadAll format) none (.listing there offers)
  | opening {there : RunId → Prop} {offers : RunId → Written C → Prop} :
      Loading (store.loadDirectory format) none (.listing there offers)
  | looping {stream : Nat} {records : List RunRecord} {there : RunId → Prop}
      {offers : RunId → Written C → Prop} : Collected v stream records [] there offers →
      Loading (.loop (store.loadEntry format stream) records .pure) (some (.stream stream))
        (.listing there offers)
  | round {stream : Nat} {records : List RunRecord} {there : RunId → Prop}
      {offers : RunId → Written C → Prop} : Collected v stream records [] there offers →
      Loading ((store.loadEntry format stream records).bind (afterEntry store format stream))
        (some (.stream stream)) (.listing there offers)
  | found {stream : Nat} {records : List RunRecord} {run : RunId} {there : RunId → Prop}
      {offers : RunId → Written C → Prop} :
      Collected v stream records [fileName run] there offers → v.names (fileName run) ≠ none →
      Loading ((store.loadFile format records (fileName run)).bind
        (afterEntry store format stream)) (some (.stream stream)) (.listing there offers)
  | reading {stream : Nat} {records : List RunRecord} {run : RunId} {file : Nat} {w : Written C}
      {there : RunId → Prop} {offers : RunId → Written C → Prop} :
      Collected v stream records [fileName run] there offers → Frozen format v file w.record →
      w.record.id = run → offers run w →
      Loading ((store.loadOpened format records (fileName run) file).bind
        (afterEntry store format stream)) (some (.stream stream)) (.listing there offers)
  | finished {answer : Except StoreError (List RunRecord)} {standing : Standing C} :
      standing.Justifies .loadAll answer → Loading (.pure answer) none standing

/-- Where a call is. -/
inductive Parallels : CallState StoreOperation.Answer (Request String β) Request.Answer →
    Option Resource → Standing C → Prop
  | unused : Parallels .unused none .unused
  | writing {record : RunRecord} {createOnly : Bool} {rest : FileIo β (Except StoreError Unit)}
      {own : Option Resource} {standing : Standing C} :
      Writing store format v record createOnly rest own standing →
      format.Fits record → record.id.value ≠ "" →
      Parallels (.running (.write record createOnly) rest) own standing
  | getting {run : RunId} {rest : FileIo β (Except StoreError (Option RunRecord))}
      {standing : Standing C} : Getting store format v run rest standing →
      Parallels (.running (.get run) rest) none standing
  | loading {rest : FileIo β (Except StoreError (List RunRecord))} {own : Option Resource}
      {standing : Standing C} : Loading store format v rest own standing →
      Parallels (.running .loadAll rest) own standing
  | closed : Parallels .closed none .closed

end Positions

end PackageHarness
