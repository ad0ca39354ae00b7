/-
# PackageHarness.Guarantees.PhaseHistory — no phase is entered twice.

The history of a stored record begins with the queue, runs through the phases in their declared order
without going back, and ends with the phase that the record says it is in; a completed record has
entered its last phase and says when. This holds at every moment of every run of the system, with
any saves failing and any number of restarts, and with recovery actions in between.
-/
import PackageHarness.Conduct.Milestones
import PackageHarness.Guarantees.SingleRun
import PackageHarness.System.Upkept

namespace PackageHarness

open Interaction

namespace RunRecord

variable {record changed : RunRecord}

/-- A recovery action leaves the timeline. -/
theorem timeline_apply {action : RecoveryAction} (h : action.apply record = .ok changed) :
    changed.timeline = record.timeline := by
  cases action with
  | continueAfterCleanup =>
      rw [(acknowledgeCleanupRecovery_eq_ok h).1]
      rfl
  | confirmCleanup =>
      rw [(confirmManualCleanup_eq_ok h).1]
      rfl
  | retryCompletion =>
      rw [(resolveCompletionConflict_eq_ok h).1]
      rfl
  | acceptCoordinatorResult =>
      rw [(resolveCompletionConflict_eq_ok h).1]
      rfl

theorem Timely.applied {action : RecoveryAction} (h : action.apply record = .ok changed)
    (hrecord : record.Timely) : changed.Timely :=
  hrecord.of_timeline (timeline_apply h)

end RunRecord

/-- What is stored is timely. -/
theorem Office.Reachable.timely {ext : Externals} {office : Office} (h : office.Reachable ext) :
    office.life.world.ledger.Holds RunRecord.Timely := by
  have hupkept : office.Upkept RunRecord.Timely :=
    h.upkept (fun _ hrecord => hrecord.persisted) RunRecord.Timely.applied
      fun _ => Worker.run_timely () trivial
  exact hupkept.store

/-- Every stored record, however it came about: its history is not empty and begins with the queue,
is strictly increasing in the declared order of the phases, and ends with the record's phase; if the
record is completed, that is the last phase, and the time of the end is set. -/
theorem phase_history_increasing {ext : Externals} {office : Office} {run : RunId}
    {record : RunRecord} (h : office.Reachable ext)
    (hrecord : office.life.world.ledger.store run = some record) :
    record.phaseHistory ≠ [] ∧
      record.phaseHistory.head?.map (·.phase) = some .queued ∧
      (record.phaseHistory.Pairwise fun earlier later =>
        earlier.phase.ctorIdx < later.phase.ctorIdx) ∧
      record.phaseHistory.getLast?.map (·.phase) = some record.phase ∧
      (record.status = .completed →
        record.phaseHistory.getLast?.map (·.phase) = some .finished ∧
          record.finishedAt.isSome) := by
  have htimely := h.timely run record hrecord
  refine ⟨?_, htimely.begins, htimely.increasing, htimely.ends, ?_⟩
  · intro hempty
    have hbegins := htimely.begins
    rw [hempty] at hbegins
    cases hbegins
  · intro hcompleted
    obtain ⟨hfinished, hstamped⟩ := htimely.completed hcompleted
    rw [htimely.ends, hfinished]
    exact ⟨rfl, hstamped⟩

/-! ## A completed run -/

/-- The result of the sample job is about to be delivered. -/
def delivering : Showing fun life : Life => (life.world.ledger.store Sample.run).any fun record =>
    record.status == .completed :=
  ⟨(Life.start Sample.ext Sample.deployment).replay
    { Sample.cooperates none none (.ok ()) with stops := Sample.sends }, by decide +kernel⟩

theorem delivering_reachable : Life.Reachable Sample.ext atomicOperators delivering.1 := by
  have hadmitted : (World.reply { Sample.cooperates none none (.ok ()) with
      stops := Sample.sends }).Admitted atomicOperators.surroundings :=
    World.reply_admitted (Or.inr fun _ h => h)
  exact Life.reachable_start.runs (Life.runs_replay hadmitted)

/-- The record of the sample job has passed through its phases in order. -/
theorem delivering_history : ∃ record, delivering.1.world.ledger.store Sample.run = some record ∧
    record.status = .completed ∧
    (record.phaseHistory.Pairwise fun earlier later =>
      earlier.phase.ctorIdx < later.phase.ctorIdx) ∧
    record.phaseHistory.getLast?.map (·.phase) = some .finished := by
  obtain ⟨record, hrecord, hcompleted⟩ := Option.any_eq_true _ _ |>.mp delivering.2
  have hstatus : record.status = .completed := by simpa using hcompleted
  have hhistory := phase_history_increasing delivering_reachable.unattended hrecord
  exact ⟨record, hrecord, hstatus, hhistory.2.2.1, (hhistory.2.2.2.2 hstatus).1⟩

end PackageHarness
