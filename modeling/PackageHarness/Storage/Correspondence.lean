/-
# PackageHarness.Storage.Correspondence — the directory and the run store it stands for.

`Holds` says that a volume stands for a durable store: the name of a run's file leads, now and after
any power loss, to a synced file with one of the values that the store allows. `Parallels` says
where the program of a call is and how far the call has come. What other calls do to the volume
between two steps of a call is `Spares`.
-/
import Mathlib.Data.List.Forall2
import PackageHarness.Storage.Durable

namespace PackageHarness

open Interaction Files FileRunStore

/-! ## Values -/

section Values

variable {C β : Type} (format : RecordFormat β) (v : Volume String β)

/-- The file is on the medium and holds the value, which is not written again. -/
def Frozen (file : Nat) (record : RunRecord) : Prop :=
  ∃ bytes, v.inodes[file]? = some ⟨bytes, true⟩ ∧ format.fromSlice bytes = .ok record

/-- What a name leads to is what the store has for the run. -/
inductive Exhibits (run : RunId) : Option Nat → Option (Written C) → Prop
  | absent : Exhibits run none none
  | file {file : Nat} {w : Written C} : Frozen format v file w.record → w.record.id = run →
      Exhibits run (some file) (some w)

/-- Everything that has a name is a run's file or a temporary one. -/
def Tidy : Prop :=
  ∀ name, (v.synced name ≠ none ∨ ∃ target, (name, target) ∈ v.changes) →
    (∃ run : RunId, run.value ≠ "" ∧ name = fileName run) ∨ Temporary name

structure Holds (s : DurableStore C) : Prop where
  settled : ∀ run, Exhibits format v run (v.synced (fileName run)) (s.settled run)
  recent : ∀ run, List.Forall₂ (fun target w => Exhibits format v run target (some w))
    (v.changesOf (fileName run)) (s.recent run)
  tidy : Tidy v

variable {format v}

theorem Exhibits.eq_none_iff {run : RunId} {target : Option Nat} {value : Option (Written C)}
    (h : Exhibits format v run target value) : target = none ↔ value = none := by
  cases h <;> simp

/-- The last elements of two lists that go together. -/
theorem getLast?_of_forall₂ {α γ : Type} {R : α → γ → Prop} {xs : List α} {ys : List γ}
    (h : List.Forall₂ R xs ys) :
    (xs.getLast? = none ∧ ys.getLast? = none) ∨
      ∃ x y, xs.getLast? = some x ∧ ys.getLast? = some y ∧ R x y := by
  induction h with
  | nil => exact Or.inl ⟨rfl, rfl⟩
  | @cons x y xs ys hxy _ ih =>
      right
      rw [List.getLast?_cons, List.getLast?_cons]
      rcases ih with ⟨hxs, hys⟩ | ⟨x', y', hxs, hys, hR⟩
      · exact ⟨x, y, by simp [hxs], by simp [hys], hxy⟩
      · exact ⟨x', y', by simp [hxs], by simp [hys], hR⟩

theorem exists_of_forall₂ {α γ : Type} {R : α → γ → Prop} {xs : List α} {ys : List γ}
    (h : List.Forall₂ R xs ys) {x : α} (hx : x ∈ xs) : ∃ y ∈ ys, R x y := by
  induction h with
  | nil => cases hx
  | @cons x' y xs ys hxy _ ih =>
      rcases List.mem_cons.mp hx with rfl | hx
      · exact ⟨y, List.mem_cons_self, hxy⟩
      · obtain ⟨z, hz, hR⟩ := ih hx
        exact ⟨z, List.mem_cons_of_mem y hz, hR⟩

/-- The name of a run's file leads to its current value. -/
theorem Holds.current {s : DurableStore C} (h : Holds format v s) (run : RunId) :
    Exhibits format v run (v.names (fileName run)) (s.current run) := by
  rw [Volume.names_eq, DurableStore.current]
  rcases getLast?_of_forall₂ (h.recent run) with
    ⟨hchanges, hrecent⟩ | ⟨target, w, hchanges, hrecent, hshows⟩
  · rw [hchanges, hrecent]
    exact h.settled run
  · rw [hchanges, hrecent]
    exact hshows

/-- Only temporary names and files that are not synced have changed. -/
structure Preserves (v v' : Volume String β) : Prop where
  frozen : ∀ (file : Nat) (content : β), v.inodes[file]? = some ⟨content, true⟩ →
    v'.inodes[file]? = some ⟨content, true⟩
  synced : v'.synced = v.synced
  changesOf : ∀ run, v'.changesOf (fileName run) = v.changesOf (fileName run)
  named : ∀ name target, (name, target) ∈ v'.changes → (name, target) ∈ v.changes ∨ Temporary name

theorem Frozen.mono {v' : Volume String β} {file : Nat} {record : RunRecord}
    (h : Frozen format v file record)
    (hfrozen : ∀ (file : Nat) (content : β), v.inodes[file]? = some ⟨content, true⟩ →
      v'.inodes[file]? = some ⟨content, true⟩) : Frozen format v' file record := by
  obtain ⟨bytes, hbytes, hrecord⟩ := h
  exact ⟨bytes, hfrozen file bytes hbytes, hrecord⟩

theorem Exhibits.mono {v' : Volume String β} {run : RunId} {target : Option Nat}
    {value : Option (Written C)} (h : Exhibits format v run target value)
    (hfrozen : ∀ (file : Nat) (content : β), v.inodes[file]? = some ⟨content, true⟩ →
      v'.inodes[file]? = some ⟨content, true⟩) : Exhibits format v' run target value := by
  cases h with
  | absent => exact .absent
  | file hfile hid => exact .file (hfile.mono hfrozen) hid

theorem Holds.quiet {v' : Volume String β} {s : DurableStore C} (h : Holds format v s)
    (hquiet : Preserves v v') : Holds format v' s where
  settled run := by
    rw [hquiet.synced]
    exact (h.settled run).mono hquiet.frozen
  recent run := by
    rw [hquiet.changesOf]
    exact (h.recent run).imp fun _ _ hshows => hshows.mono hquiet.frozen
  tidy := by
    intro name hname
    rw [hquiet.synced] at hname
    rcases hname with hsynced | ⟨target, hmem⟩
    · exact h.tidy name (Or.inl hsynced)
    · rcases hquiet.named name target hmem with hold | htemporary
      · exact h.tidy name (Or.inr ⟨target, hold⟩)
      · exact Or.inr htemporary

/-- What a name leads somewhere for. -/
theorem Holds.named {s : DurableStore C} (h : Holds format v s) {name : String}
    (hnamed : v.names name ≠ none) :
    (∃ run : RunId, run.value ≠ "" ∧ name = fileName run) ∨ Temporary name := by
  rw [Volume.names_eq] at hnamed
  cases hlast : (v.changesOf name).getLast? with
  | none =>
      rw [hlast] at hnamed
      exact h.tidy name (Or.inl hnamed)
  | some target =>
      have hmem := Volume.mem_changes_of_changesOf v (List.mem_of_getLast? hlast)
      exact h.tidy name (Or.inr ⟨target, hmem⟩)

/-- A run that has a file has a name that listings recognize. -/
theorem Holds.nonempty_of_named {s : DurableStore C} (h : Holds format v s) {run : RunId}
    (hnamed : v.names (fileName run) ≠ none) : run.value ≠ "" := by
  rcases h.named hnamed with ⟨other, hother, heq⟩ | htemporary
  · rw [fileName_injective heq]
    exact hother
  · exact absurd rfl (ne_fileName_of_temporary htemporary run)

/-! ### The operations that change no run's file -/

theorem quiet_put {file : Nat} {inode inode' : Inode β} (hfile : v.inodes[file]? = some inode)
    (hunsynced : inode.stable = false) : Preserves v (v.put file inode') where
  frozen := by
    intro other content hother
    have hne : other ≠ file := by
      rintro rfl
      rw [hfile] at hother
      cases hother
      cases hunsynced
    rw [Volume.inodes_put_of_ne v hne]
    exact hother
  synced := rfl
  changesOf _ := rfl
  named _ _ h := Or.inl h

theorem quiet_flush (file : Nat) : Preserves v (v.flush file) where
  frozen := by
    intro other content hother
    by_cases heq : other = file
    · subst heq
      simp [Volume.flush, hother]
    · rw [Volume.inodes_flush_of_ne v heq]
      exact hother
  synced := rfl
  changesOf _ := rfl
  named _ _ h := Or.inl h

theorem quiet_link {name : String} (htemporary : Temporary name) (target : Option Nat) :
    Preserves v (v.link name target) where
  frozen _ _ h := h
  synced := rfl
  changesOf run :=
    Volume.changesOf_link_of_ne v target (ne_fileName_of_temporary htemporary run).symm
  named other target' h := by
    rcases List.mem_append.mp h with hold | hnew
    · exact Or.inl hold
    · cases List.mem_singleton.mp hnew
      exact Or.inr htemporary

theorem quiet_create {name : String} (htemporary : Temporary name) (blank : β) :
    Preserves v (v.create name blank) where
  frozen file content h := by
    rw [Volume.inodes_create_of_lt v (List.getElem?_eq_some_iff.mp h).1]
    exact h
  synced := rfl
  changesOf := (quiet_link htemporary (some v.inodes.length)).changesOf
  named := (quiet_link htemporary (some v.inodes.length)).named

theorem quiet_openDirectory : Preserves v v.openDirectory :=
  ⟨fun _ _ h => h, rfl, fun _ => rfl, fun _ _ h => Or.inl h⟩

theorem quiet_reveal (stream : Nat) (name : String) : Preserves v (v.reveal stream name) :=
  ⟨fun _ _ h => h, rfl, fun _ => rfl, fun _ _ h => Or.inl h⟩

/-! ### The operations that do -/

/-- A new value under a run's name. -/
theorem Holds.rename {s : DurableStore C} (h : Holds format v s) (caller : C)
    {record : RunRecord} {temporary : String} {file : Nat} (htemporary : Temporary temporary)
    (hnamed : v.names temporary = some file) (hfile : Frozen format v file record.persisted)
    (hid : record.id.value ≠ "") :
    Holds format (v.rename temporary (fileName record.id)) (s.put caller record) := by
  have hshows : Exhibits (C := C) format v record.id (some file)
      (some ⟨caller, record.persisted⟩) := .file hfile rfl
  have hchanges : ∀ run, (v.rename temporary (fileName record.id)).changesOf (fileName run)
      = (v.link (fileName record.id) (some file)).changesOf (fileName run) := by
    intro run
    rw [Volume.rename, hnamed]
    exact (quiet_link htemporary none).changesOf run
  have hfrozen : ∀ (file : Nat) (content : β), v.inodes[file]? = some ⟨content, true⟩ →
      (v.rename temporary (fileName record.id)).inodes[file]? = some ⟨content, true⟩ :=
    fun _ _ h => h
  refine ⟨fun run => (h.settled run).mono hfrozen, ?_, ?_⟩
  · intro run
    rw [hchanges]
    have hrecent := (h.recent run).imp fun _ _ hshows => hshows.mono hfrozen
    by_cases hrun : run = record.id
    · subst hrun
      rw [Volume.changesOf_link_same, DurableStore.recent_put_same]
      exact List.rel_append hrecent (.cons (hshows.mono hfrozen) .nil)
    · have hne : fileName run ≠ fileName record.id := fun heq => hrun (fileName_injective heq)
      rw [Volume.changesOf_link_of_ne _ _ hne, DurableStore.recent_put_of_ne s caller hrun]
      exact hrecent
  · intro name hname
    rcases hname with hsynced | ⟨target, hmem⟩
    · exact h.tidy name (Or.inl hsynced)
    · -- an earlier change, the run's file or the name that was given up
      simp only [Volume.rename, Volume.link, List.append_assoc, List.mem_append,
        List.mem_singleton, Prod.mk.injEq] at hmem
      rcases hmem with hold | ⟨rfl, _⟩ | ⟨rfl, _⟩
      · exact h.tidy name (Or.inr ⟨target, hold⟩)
      · exact Or.inl ⟨record.id, hid, rfl⟩
      · exact Or.inr htemporary

theorem Holds.syncDirectory {s : DurableStore C} (h : Holds format v s) :
    Holds format v.syncDirectory s.settle where
  settled run := (h.current run).mono fun _ _ hinode => hinode
  recent _ := .nil
  tidy := by
    intro name hname
    rcases hname with hsynced | ⟨target, hmem⟩
    · exact h.named hsynced
    · cases hmem

/-- After a power loss a volume stands for what its store may have become. -/
theorem Holds.losesPower {s : DurableStore C} {after : Volume String β} (h : Holds format v s)
    (hlost : v.LosesPower after) : ∃ s', s.LosesPower s' ∧ Holds format after s' := by
  have hvalues : ∀ run, ∃ value, Exhibits format v run (after.synced (fileName run)) value ∧
      (value = s.settled run ∨ ∃ w ∈ s.recent run, value = some w) := by
    intro run
    rcases hlost.name (fileName run) with hsynced | hmem
    · rw [hsynced]
      exact ⟨s.settled run, h.settled run, Or.inl rfl⟩
    · obtain ⟨w, hw, hshows⟩ := exists_of_forall₂ (h.recent run) hmem
      exact ⟨some w, hshows, Or.inr ⟨w, hw, rfl⟩⟩
  choose value hshows hvalue using hvalues
  refine ⟨⟨value, fun _ => [], fun other => (s.standing other).stop⟩,
    ⟨hvalue, fun _ => rfl, fun _ => rfl⟩, ?_, ?_, ?_⟩
  · exact fun run => (hshows run).mono hlost.contents
  · intro run
    rw [Volume.changesOf, hlost.changes]
    exact .nil
  · intro name hname
    rw [hlost.changes] at hname
    rcases hname with hsynced | ⟨_, hmem⟩
    · rcases hlost.name name with heq | hmem
      · rw [heq] at hsynced
        exact h.tidy name (Or.inl hsynced)
      · exact h.tidy name (Or.inr ⟨_, Volume.mem_changes_of_changesOf v hmem⟩)
    · cases hmem

end Values

end PackageHarness
