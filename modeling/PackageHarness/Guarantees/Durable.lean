/-
# PackageHarness.Guarantees.Durable — what the file store guarantees to its callers.
-/
import PackageHarness.Storage.Durability
import PackageHarness.Storage.Rehearsal

namespace PackageHarness

open Interaction Files

namespace FileRunStore

variable {C β : Type} [DecidableEq C] {store : FileRunStore} {format : RecordFormat β}
  {h h₁ h₂ h₃ h₄ h₅ : List (StoreEvent C)}
  {x : Shared C StoreOperation.Answer (Request String β) Request.Answer (Volume String β)}

/-- Whatever callers see of the file store, in any interleaving of their calls and through any
outages, an atomic durable store could have shown them, and the files are what that store has. -/
theorem durable_of_inUse (hrun : (inUse C store format).History (.start .empty) h x) :
    ∃ s : DurableStore C, DurableStore.automaton.History .empty h s ∧
      ∀ run, Exhibits format x.world run (x.world.names (fileName run)) (s.current run) := by
  obtain ⟨s, hs, hresembles⟩ := resembles_of_history hrun
  exact ⟨s, hs, hresembles.holds.current⟩

theorem durable_of_inUse_sample : ∃ x, ∃ s : DurableStore Nat,
    DurableStore.automaton.History .empty Sample.events s ∧
      ∀ run, Exhibits Sample.files x run (x.names (fileName run)) (s.current run) := by
  obtain ⟨x, hrun⟩ := Sample.history
  exact ⟨x.world, durable_of_inUse hrun⟩

/-- A write that was answered as done survives: later the run's file is on the medium, whole, with
that record or one of a call that was not over when the write was called. -/
theorem acknowledged_write_survives {caller : C} {record : RunRecord} {createOnly : Bool}
    (hrun : (inUse C store format).History (.start .empty)
      (h₁ ++ .called caller (.write record createOnly) :: h₂ ++
        .answered caller (.write record createOnly) (.ok ()) :: h₃) x) :
    ∃ file w, x.world.names (fileName record.id) = some file ∧
      Frozen format x.world file w.record ∧ ¬ Ceased h₁ w.writer ∧
      Wrote (h₁ ++ .called caller (.write record createOnly) :: h₂ ++
        .answered caller (.write record createOnly) (.ok ()) :: h₃) record.id w := by
  obtain ⟨s, hs, hresembles⟩ := resembles_of_history hrun
  obtain ⟨w, hcurrent, hw⟩ := (beyond_of_acknowledged hs).current
  have hfile := hresembles.holds.current record.id
  rw [hcurrent] at hfile
  generalize hnamed : x.world.names (fileName record.id) = target at hfile
  cases hfile with
  | @file file _ hfrozen _ =>
      exact ⟨file, w, rfl, hfrozen, hw, (accounted_of_history hs).current hcurrent⟩

theorem acknowledged_write_survives_sample : ∃ x, ∃ file w,
    x.names (fileName Sample.run) = some file ∧ Frozen Sample.files x file w.record ∧
      ¬ Ceased ([] : List (StoreEvent Nat)) w.writer ∧ Wrote Sample.events Sample.run w := by
  obtain ⟨x, hrun⟩ := Sample.history
  have hsplit : (Sample.store.inUse Nat Sample.files).History (.start .empty)
      ([] ++ .called 0 (.save Sample.claimed) :: [] ++
        .answered 0 (.save Sample.claimed) (.ok ()) :: Sample.events.drop 2) x := hrun
  exact ⟨x.world, acknowledged_write_survives hsplit⟩

/-- What a caller is answered, its call could be answered at that moment in the durable store. -/
theorem justified_of_answered {caller : C} {op : StoreOperation} {answer : op.Answer}
    (hrun : (inUse C store format).History (.start .empty)
      (h₁ ++ .answered caller op answer :: h₂) x) :
    ∃ s : DurableStore C, DurableStore.automaton.History .empty h₁ s ∧
      (s.standing caller).Justifies op answer := by
  obtain ⟨_, hs, _⟩ := resembles_of_history hrun
  obtain ⟨s, s', hbefore, hstep, _⟩ := hs.at_event
  cases hstep with
  | answer hjustified => exact ⟨s, hbefore, hjustified⟩

/-- Who reads a run after a write to it was answered as done is shown that record, or one of a call
that was not over when the write was called. -/
theorem get_after_acknowledged {caller reader : C} {record : RunRecord} {createOnly : Bool}
    {value : Option RunRecord}
    (hrun : (inUse C store format).History (.start .empty)
      (h₁ ++ .called caller (.write record createOnly) :: h₂ ++
        .answered caller (.write record createOnly) (.ok ()) :: h₃ ++
        .called reader (.get record.id) :: h₄ ++
        .answered reader (.get record.id) (.ok value) :: h₅) x) :
    ∃ w, value = some w.record ∧ ¬ Ceased h₁ w.writer ∧
      Wrote (h₁ ++ .called caller (.write record createOnly) :: h₂ ++
        .answered caller (.write record createOnly) (.ok ()) :: h₃ ++
        .called reader (.get record.id) :: h₄) record.id w := by
  obtain ⟨s, hs, hjustified⟩ := justified_of_answered hrun
  obtain ⟨t, ht, hrest⟩ := hs.split
  obtain ⟨w, hfound, hvalue, hw⟩ := found_beyond (beyond_of_acknowledged ht) hrest hjustified
  exact ⟨w, hvalue, hw, (accounted_of_history hs).found hfound⟩

theorem get_after_acknowledged_sample : ∃ w : Written Nat,
    some Sample.claimed = some w.record ∧ ¬ Ceased ([] : List (StoreEvent Nat)) w.writer ∧
      Wrote (Sample.events.take 4) Sample.run w := by
  obtain ⟨x, hrun⟩ := Sample.history
  have hsplit : (Sample.store.inUse Nat Sample.files).History (.start .empty)
      ([] ++ .called 0 (.save Sample.claimed) :: [] ++
        .answered 0 (.save Sample.claimed) (.ok ()) :: [.interrupted .power] ++
        .called 1 (.get Sample.claimed.id) :: [] ++
        .answered 1 (.get Sample.claimed.id) (.ok (some Sample.claimed)) ::
        Sample.events.drop 5) x := hrun
  exact get_after_acknowledged hsplit

/-- A listing after that holds such a record of the run. -/
theorem loadAll_after_acknowledged {caller reader : C} {record : RunRecord} {createOnly : Bool}
    {records : List RunRecord}
    (hrun : (inUse C store format).History (.start .empty)
      (h₁ ++ .called caller (.write record createOnly) :: h₂ ++
        .answered caller (.write record createOnly) (.ok ()) :: h₃ ++
        .called reader .loadAll :: h₄ ++ .answered reader .loadAll (.ok records) :: h₅) x) :
    ∃ w, w.record ∈ records ∧ ¬ Ceased h₁ w.writer ∧
      Wrote (h₁ ++ .called caller (.write record createOnly) :: h₂ ++
        .answered caller (.write record createOnly) (.ok ()) :: h₃ ++
        .called reader .loadAll :: h₄) record.id w := by
  obtain ⟨s, hs, hjustified⟩ := justified_of_answered hrun
  obtain ⟨t, ht, hrest⟩ := hs.split
  obtain ⟨there, offers, w, hlisting, hoffered, hrecords, hw⟩ :=
    listed_beyond (beyond_of_acknowledged ht) hrest hjustified
  exact ⟨w, hrecords, hw, (accounted_of_history hs).offered hlisting hoffered⟩

theorem loadAll_after_acknowledged_sample : ∃ w : Written Nat,
    w.record ∈ [Sample.claimed] ∧ ¬ Ceased ([] : List (StoreEvent Nat)) w.writer ∧
      Wrote (Sample.events.take 6) Sample.run w := by
  obtain ⟨x, hrun⟩ := Sample.history
  have hsplit : (Sample.store.inUse Nat Sample.files).History (.start .empty)
      ([] ++ .called 0 (.save Sample.claimed) :: [] ++
        .answered 0 (.save Sample.claimed) (.ok ()) ::
        [.interrupted .power, .called 1 (.get Sample.run),
          .answered 1 (.get Sample.run) (.ok (some Sample.claimed))] ++
        .called 2 .loadAll :: [] ++ .answered 2 .loadAll (.ok [Sample.claimed]) :: []) x := hrun
  exact loadAll_after_acknowledged hsplit

theorem loadAll_sorted {reader : C} {records : List RunRecord}
    (hrun : (inUse C store format).History (.start .empty)
      (h₁ ++ .answered reader .loadAll (.ok records) :: h₂) x) :
    (records.map RunRecord.id).Nodup ∧
      records.Pairwise (fun earlier later => earlier.createdAt ≤ later.createdAt) ∧
      ∀ record ∈ records, ∃ w, w.record = record ∧ Wrote h₁ record.id w := by
  obtain ⟨s, hs, there, offers, hlisting, hlisted⟩ := justified_of_answered hrun
  refine ⟨hlisted.once, hlisted.sorted, ?_⟩
  intro record hrecord
  obtain ⟨w, hw, hvalue⟩ := hlisted.offered record hrecord
  exact ⟨w, hvalue, (accounted_of_history hs).offered hlisting hw⟩

theorem loadAll_sorted_sample : ([Sample.claimed].map RunRecord.id).Nodup ∧
    [Sample.claimed].Pairwise (fun earlier later => earlier.createdAt ≤ later.createdAt) ∧
    ∀ record ∈ [Sample.claimed], ∃ w : Written Nat,
      w.record = record ∧ Wrote (Sample.events.take 6) record.id w := by
  obtain ⟨x, hrun⟩ := Sample.history
  have hsplit : (Sample.store.inUse Nat Sample.files).History (.start .empty)
      (Sample.events.take 6 ++ .answered 2 .loadAll (.ok [Sample.claimed]) :: []) x := hrun
  exact loadAll_sorted hsplit

/-- No reader ever comes upon a file that is torn, empty or otherwise not a record. -/
theorem never_invalid (hrun : (inUse C store format).History (.start .empty) h x) {reader : C}
    {run : RunId} {message : String} :
    .answered reader (.get run) (.error (.invalid message)) ∉ h ∧
      .answered reader .loadAll (.error (.invalid message)) ∉ h := by
  refine ⟨?_, ?_⟩ <;>
    (intro hanswered
     obtain ⟨before, after, rfl⟩ := List.append_of_mem hanswered
     obtain ⟨_, _, ⟨_, herror⟩, _⟩ := justified_of_answered hrun
     cases herror)

theorem never_invalid_sample :
    .answered 1 (.get Sample.run) (.error (.invalid "EOF while parsing")) ∉ Sample.events ∧
      .answered 1 .loadAll (.error (.invalid "EOF while parsing")) ∉ Sample.events := by
  obtain ⟨_, hrun⟩ := Sample.history
  exact never_invalid hrun

/-- Calls that come one after the other, each to its answer or until the process dies, do to the
files what they do to the ledger. -/
theorem ledger_of_inUse {calls : List (StoreExchange C)}
    (hrun : (inUse C store format).History (.start .empty) (calls.flatMap StoreExchange.events) x) :
    ∃ after : Ledger, Ledger.empty.Takes calls after ∧ Embodies format x.world after.store := by
  obtain ⟨s, hs, hresembles⟩ := resembles_of_history hrun
  obtain ⟨after, hrecords, htakes⟩ := takes_of_history hs
  exact ⟨after, htakes, stands_of_shows hresembles.holds.current hrecords⟩

theorem ledger_of_inUse_sample : ∃ x, ∃ after : Ledger,
    Ledger.empty.Takes Sample.calls after ∧ Embodies Sample.files x after.store := by
  obtain ⟨x, hrun⟩ := Sample.sequential_history
  exact ⟨x.world, ledger_of_inUse hrun⟩

end FileRunStore

end PackageHarness
