/-
# PackageHarness.System.Ledger — what outlives the process, and how requests change it.

The run store is a directory with one file per run. A write that reports an error may have happened
or not, which is what renaming a file before syncing its directory amounts to. Next to the store the
ledger keeps, for statements only, the inventory that each run read in preflight.
-/
import Mathlib.Logic.Function.Basic
import Mathlib.Data.List.Nodup
import PackageHarness.Api.Recovery

namespace PackageHarness

open Interaction

/-- The run files of the data directory: one for each run id. -/
structure RunStore where
  records : List RunRecord
  unique : (records.map RunRecord.id).Nodup

namespace RunStore

def empty : RunStore := ⟨[], List.nodup_nil⟩

/-- The record in the run's file. -/
def lookup (store : RunStore) (run : RunId) : Option RunRecord :=
  store.records.find? fun record => record.id = run

instance : CoeFun RunStore fun _ => RunId → Option RunRecord := ⟨lookup⟩

theorem id_of_lookup {store : RunStore} {run : RunId} {record : RunRecord}
    (h : store run = some record) : record.id = run := by
  simpa using List.find?_some h

theorem mem_records {store : RunStore} {record : RunRecord} :
    record ∈ store.records ↔ store record.id = some record := by
  constructor
  · intro hmem
    cases hfind : store record.id with
    | none =>
        have hnone := List.find?_eq_none.mp hfind record hmem
        simp at hnone
    | some found =>
        have hfound : found ∈ store.records := List.mem_of_find?_eq_some hfind
        have hid : found.id = record.id := id_of_lookup hfind
        rw [List.inj_on_of_nodup_map store.unique hfound hmem hid]
  · exact fun h => List.mem_of_find?_eq_some h

/-- The store after the record's file was replaced. -/
def write (store : RunStore) (record : RunRecord) : RunStore where
  records := store.records.filter (fun other => other.id ≠ record.id) ++ [record.persisted]
  unique := by
    rw [List.map_append, List.nodup_append]
    refine ⟨store.unique.sublist (List.filter_sublist.map _), by simp, ?_⟩
    -- the other records were filtered by the id that is appended
    intro run hrun other hother
    simp only [List.mem_map, List.mem_filter, decide_eq_true_eq] at hrun
    obtain ⟨found, ⟨_, hne⟩, rfl⟩ := hrun
    have hid : other = record.id := by simpa using hother
    rw [hid]
    exact hne

@[simp] theorem write_same (store : RunStore) (record : RunRecord) :
    store.write record record.id = some record.persisted := by
  unfold write lookup
  rw [List.find?_append, List.find?_eq_none.mpr]
  · simp
  · intro other hother
    simpa using (List.mem_filter.mp hother).2

theorem write_of_ne (store : RunStore) (record : RunRecord) {run : RunId} (h : run ≠ record.id) :
    store.write record run = store run := by
  have hlast : ([record.persisted].find? fun other => other.id = run) = none := by
    simp [Ne.symm h]
  unfold write lookup
  rw [List.find?_append, hlast, Option.or_none, List.find?_filter]
  congr 1
  funext other
  by_cases hrun : other.id = run
  · simp [hrun, h]
  · simp [hrun]

/-- Atomic replacement: reported as done, or reported as failed with or without effect. -/
def Saves (store : RunStore) (record : RunRecord) :
    Except StoreError Unit → RunStore → Prop
  | .ok _, after => after = store.write record
  | .error _, after => after = store ∨ after = store.write record

/-- Creation never touches a file that exists. -/
def Creates (store : RunStore) (record : RunRecord) (answer : Except StoreError Unit)
    (after : RunStore) : Prop :=
  match store record.id with
  | none => store.Saves record answer after
  | some _ => after = store ∧ ∃ error, answer = .error error

/-- A complete listing, oldest record first. -/
def Lists (store : RunStore) (records : List RunRecord) : Prop :=
  records.Perm store.records ∧
    records.Pairwise fun earlier later => earlier.createdAt ≤ later.createdAt

theorem Lists.mem {store : RunStore} {records : List RunRecord} (h : store.Lists records)
    {record : RunRecord} : record ∈ records ↔ store record.id = some record := by
  rw [h.1.mem_iff, mem_records]

theorem Lists.mem_of_lookup {store : RunStore} {records : List RunRecord}
    (h : store.Lists records) {run : RunId} {record : RunRecord} (hrun : store run = some record) :
    record ∈ records := by
  rw [h.mem, id_of_lookup hrun]
  exact hrun

end RunStore

structure Ledger where
  store : RunStore
  /-- The inventory that a run's preflight was answered with. -/
  preflight : RunId → Option (List PackageSummary)

namespace Ledger

def empty : Ledger := ⟨.empty, fun _ => none⟩

def noteInventory (ledger : Ledger) (run : RunId) (packages : List PackageSummary) : Ledger :=
  { ledger with preflight := Function.update ledger.preflight run (some packages) }

def RunnerAnswers (ledger : Ledger) (run : RunId) :
    (request : RunnerRequest) → request.Answer → Ledger → Prop
  | .save _ record, answer, after =>
      ledger.store.Saves record answer after.store ∧ after.preflight = ledger.preflight
  | .get id, answer, after =>
      after = ledger ∧ ∀ found, answer = .ok found → found = ledger.store id
  -- the inventory that a run starts from is noted, for statements about it
  | .pm (.listPackages .preflight), answer, after =>
      match answer with
      | .ok packages => after = ledger.noteInventory run packages
      | .error _ => after = ledger
  | _, _, after => after = ledger

/-- How a request is answered and what it leaves behind. Package manager, coordinator and clock may
answer anything. -/
def Answers (ledger : Ledger) : (request : WorkerRequest) → request.Answer → Ledger → Prop
  | .runner run request, answer, after => ledger.RunnerAnswers run request answer after
  | .create record, answer, after =>
      ledger.store.Creates record answer after.store ∧ after.preflight = ledger.preflight
  -- a listing may fail, but one that succeeds is complete
  | .loadAll, answer, after =>
      after = ledger ∧ ∀ records, answer = .ok records → ledger.store.Lists records
  | _, _, after => after = ledger

/-- A recovery action as one atomic step on the record of `run`. -/
def Operates (ledger : Ledger) (action : RecoveryAction) (run : RunId)
    (answer : Except OperatorRecoveryError Unit) (after : Ledger) : Prop :=
  ∃ record changed saved, ledger.store run = some record ∧ action.apply record = .ok changed ∧
    ledger.store.Saves changed saved after.store ∧ after.preflight = ledger.preflight ∧
    answer = saved.mapError fun error => .store error.toText

end Ledger

end PackageHarness
