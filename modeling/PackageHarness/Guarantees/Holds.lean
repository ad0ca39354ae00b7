/-
# PackageHarness.Guarantees.Holds — every hold has a way out.

A hold can be resolved when the guards of the recovery actions admit a sequence that clears it. One
save of the worker can leave a hold for which no action is admitted; in runs in which that save does
not fail, every durable hold can be resolved.
-/
import PackageHarness.Guarantees.CleanTarget

namespace PackageHarness

/-- Recovery actions one after the other, each under its own guards. -/
def RecoveryAction.applyAll :
    List RecoveryAction → RunRecord → Except OperatorRecoveryError RunRecord
  | [], record => .ok record
  | action :: actions, record => do applyAll actions (← action.apply record)

/-- Some sequence of admitted actions clears the record's hold. -/
def RunRecord.Resolvable (record : RunRecord) : Prop :=
  ∃ actions changed, RecoveryAction.applyAll actions record = .ok changed ∧
    changed.worker.manualRecovery = none

/-- What the guards need of a record with a hold. -/
structure RunRecord.HoldsAnswerably (record : RunRecord) : Prop where
  cleanup : record.worker.manualRecoveryKind = some .cleanup →
    record.worker.cleanupRequired = true
  conflict : record.worker.manualRecoveryKind = some .completionConflict →
    record.worker.pendingCompletionBody.isSome ∧
      ((record.cleanup.status = .passed ∨ record.cleanup.status = .skipped) ∨
        record.worker.cleanupRequired = true)

namespace RunRecord

variable {record : RunRecord}

theorem manualRecoveryKind_isSome :
    record.worker.manualRecoveryKind.isSome = record.worker.manualRecovery.isSome := by
  unfold WorkerState.manualRecoveryKind
  cases record.worker.manualRecovery <;> rfl

theorem manualRecovery_of_kind {kind : ManualRecoveryKind}
    (h : record.worker.manualRecoveryKind = some kind) :
    record.worker.manualRecovery.isNone = false := by
  have hsome : record.worker.manualRecovery.isSome := by
    rw [← manualRecoveryKind_isSome, h]
    rfl
  cases hhold : record.worker.manualRecovery with
  | none => simp [hhold] at hsome
  | some hold => rfl

theorem acknowledge_ok (hkind : record.worker.manualRecoveryKind = some .cleanup)
    (hrequired : record.worker.cleanupRequired = true) :
    acknowledgeCleanupRecovery record = .ok record.withManualCleanup.withoutHold := by
  unfold acknowledgeCleanupRecovery
  rw [manualRecovery_of_kind hkind, hrequired, hkind]
  rfl

theorem confirm_ok {kind : ManualRecoveryKind}
    (hkind : record.worker.manualRecoveryKind = some kind)
    (hrequired : record.worker.cleanupRequired = true) :
    confirmManualCleanup record = .ok record.withManualCleanup := by
  unfold confirmManualCleanup
  rw [manualRecovery_of_kind hkind, hrequired]
  rfl

theorem retry_ok (hkind : record.worker.manualRecoveryKind = some .completionConflict)
    (hcleanup : record.cleanup.status = .passed ∨ record.cleanup.status = .skipped)
    (hbody : record.worker.pendingCompletionBody.isSome) :
    resolveCompletionConflict false record = .ok record.withoutHold := by
  obtain ⟨body, hbody⟩ := Option.isSome_iff_exists.mp hbody
  unfold resolveCompletionConflict
  rw [manualRecovery_of_kind hkind, hkind, hbody]
  rcases hcleanup with hstatus | hstatus <;> rw [hstatus] <;> rfl

/-- The guards of the four actions leave no answerable hold unresolved. -/
theorem HoldsAnswerably.resolvable (h : record.HoldsAnswerably) : record.Resolvable := by
  cases hkind : record.worker.manualRecoveryKind with
  | none =>
      refine ⟨[], record, rfl, ?_⟩
      have hnone : record.worker.manualRecovery.isSome = false := by
        rw [← manualRecoveryKind_isSome, hkind]
        rfl
      simpa using hnone
  | some kind =>
      cases kind with
      | cleanup =>
          refine ⟨[.continueAfterCleanup], record.withManualCleanup.withoutHold, ?_, rfl⟩
          show (acknowledgeCleanupRecovery record >>= Except.ok) = _
          rw [acknowledge_ok hkind (h.cleanup hkind)]
          rfl
      | completionConflict =>
          obtain ⟨hbody, hcleanup | hrequired⟩ := h.conflict hkind
          · refine ⟨[.retryCompletion], record.withoutHold, ?_, rfl⟩
            show (resolveCompletionConflict false record >>= Except.ok) = _
            rw [retry_ok hkind hcleanup hbody]
            rfl
          · -- the cleanup is confirmed first, which keeps the hold
            refine ⟨[.confirmCleanup, .retryCompletion],
              record.withManualCleanup.withoutHold, ?_, rfl⟩
            have hretry : resolveCompletionConflict false record.withManualCleanup =
                .ok record.withManualCleanup.withoutHold := retry_ok hkind (Or.inl rfl) hbody
            show (confirmManualCleanup record >>= fun changed =>
              resolveCompletionConflict false changed >>= Except.ok) = _
            rw [confirm_ok hkind hrequired]
            show (resolveCompletionConflict false record.withManualCleanup >>= Except.ok) = _
            rw [hretry]
            rfl

/-- A cleanup hold on a target that was never changed answers to no action. -/
theorem not_resolvable (hkind : record.worker.manualRecoveryKind = some .cleanup)
    (huntouched : record.worker.cleanupRequired = false) : ¬ record.Resolvable := by
  intro hactions
  obtain ⟨actions, changed, happly, hreleased⟩ := hactions
  cases actions with
  | nil =>
      cases happly
      simp [WorkerState.manualRecoveryKind, hreleased] at hkind
  | cons action actions =>
      -- every action is rejected, so no sequence gets past its first
      have hrejected : ∃ error, action.apply record = .error error := by
        cases action with
        | continueAfterCleanup =>
            exact ⟨.notCleanup, by
              simp [RecoveryAction.apply, acknowledgeCleanupRecovery, manualRecovery_of_kind hkind,
                huntouched]⟩
        | confirmCleanup =>
            exact ⟨.notCleanup, by
              simp [RecoveryAction.apply, confirmManualCleanup, manualRecovery_of_kind hkind,
                huntouched]⟩
        | retryCompletion =>
            exact ⟨.notCompletionConflict, by
              simp [RecoveryAction.apply, resolveCompletionConflict, manualRecovery_of_kind hkind,
                hkind]⟩
        | acceptCoordinatorResult =>
            exact ⟨.notCompletionConflict, by
              simp [RecoveryAction.apply, resolveCompletionConflict, manualRecovery_of_kind hkind,
                hkind]⟩
      obtain ⟨error, herror⟩ := hrejected
      rw [RecoveryAction.applyAll, herror] at happly
      cases happly

end RunRecord

namespace Machine

variable {ext : Externals} {machine : Machine} {run : RunId} {record : RunRecord}

theorem Reachable.holdsAnswerably (h : Reachable ext (· = .holdsUntouchedTarget) machine)
    (hrecord : machine.Durable run record) : record.HoldsAnswerably where
  cleanup := (h.sound hrecord).held rfl
  conflict := by
    intro hkind
    have hsound := h.sound hrecord
    have hbody := hsound.conflict hkind
    refine ⟨hbody, ?_⟩
    cases hrequired : record.worker.cleanupRequired with
    | true => exact Or.inr rfl
    | false =>
        -- an untouched target whose job has an outcome counts as skipped
        rcases hsound.untouched hrequired with hpending | hskipped
        · exact absurd hpending (hsound.settled (hsound.outcome_of_pending hbody))
        · exact Or.inl (Or.inr hskipped)

/-- In runs in which persisting the recovery state of an untouched target does not fail, every
durable hold is one that the guards let an operator resolve. -/
theorem holds_can_be_resolved (h : Reachable ext (· = .holdsUntouchedTarget) machine)
    (hrecord : machine.Durable run record) :
    record.Resolvable ∧ record.HoldsAnswerably :=
  ⟨(h.holdsAnswerably hrecord).resolvable, h.holdsAnswerably hrecord⟩

/-- The worker pauses because the target could not be cleaned. -/
def atHold : Showing fun machine : Machine =>
    machine.keeps Sample.run fun record => record.worker.manualRecovery.isSome :=
  ⟨(start Sample.ext Sample.deployment).replay { Sample.cleanupFails (fun _ request =>
    request.standsDown) with careful := true }, by decide +kernel⟩

theorem hold_can_be_resolved : ∃ record, atHold.1.Durable Sample.run record ∧
    record.worker.manualRecovery.isSome = true ∧ record.Resolvable := by
  obtain ⟨record, hrecord, hheld⟩ := durable_of_keeps _ _ _ atHold.2
  have hreachable : Reachable Sample.ext (· = .holdsUntouchedTarget) atHold.1 :=
    reachable_start.replay (Or.inl rfl)
  exact ⟨record, hrecord, hheld, (holds_can_be_resolved hreachable hrecord).1⟩

/-- The job was created, and nothing of it was executed. -/
def atFirstHeartbeat : Machine :=
  (start Sample.ext Sample.deployment).replay (Sample.installFails fun _ request =>
    request.startsHeartbeat)

def unsavedAfterRestart : Showing fun machine : Machine =>
    machine.keeps Sample.run fun record =>
      record.worker.manualRecoveryKind = some .cleanup && !record.worker.cleanupRequired :=
  ⟨(atFirstHeartbeat.restart Sample.ext Sample.deployment).replay
    (Sample.recoveryUnsaved fun _ request => request.standsDown), by decide +kernel⟩

/-- One failed save leaves a hold that no operator can resolve. -/
theorem failed_save_leaves_unresolvable_hold : ¬ ∀ ext machine run record,
    Reachable ext noDefect machine → machine.Durable run record → record.Resolvable := by
  intro hclaim
  have hnone : ∀ defect, ¬ noDefect defect := fun _ h => h
  obtain ⟨record, hrecord, htest⟩ := durable_of_keeps _ _ _ unsavedAfterRestart.2
  simp only [Bool.and_eq_true, decide_eq_true_eq, Bool.not_eq_true'] at htest
  have hreachable : Reachable Sample.ext noDefect unsavedAfterRestart.1 :=
    Reachable.replay (Reachable.restart (reachable_start.replay (Or.inr hnone))) (Or.inr hnone)
  exact RunRecord.not_resolvable htest.1 htest.2
    (hclaim Sample.ext unsavedAfterRestart.1 Sample.run record hreachable hrecord)

end Machine

end PackageHarness
