/-
# PackageHarness.Protocol.Actions — recovery actions keep a job sound and only move it forward.
-/
import PackageHarness.Protocol.Job

namespace PackageHarness

variable {ext : Externals} {avoided : Defect → Prop}
  {preflight : RunId → Option (List PackageSummary)} {record changed : RunRecord}

section Cleanup

/-- A confirmed cleanup is recorded as passed and nothing else changes. -/
theorem withManualCleanup_sound (h : record.job.Sound ext avoided preflight)
    (hrequired : record.worker.cleanupRequired = true) :
    record.withManualCleanup.job.Sound ext avoided preflight :=
  { h with
    untouched := fun huntouched => by
      have huntouched : record.worker.cleanupRequired = false := huntouched
      simp [hrequired] at huntouched
    touched := fun _ => by simp [RunRecord.job, RunRecord.withManualCleanup]
    settled := fun _ => by simp [RunRecord.job, RunRecord.withManualCleanup]
    delivered := fun _ _ _ => rfl
    freed := fun _ _ _ _ => rfl }

theorem withManualCleanup_evolves (avoided : Defect → Prop) (record : RunRecord) :
    record.job.Evolves avoided record.withManualCleanup.job :=
  { Job.Evolves.refl record.job with passed := fun _ => rfl }

end Cleanup

section Holds

theorem withoutHold_sound (h : record.job.Sound ext avoided preflight) :
    record.withoutHold.job.Sound ext avoided preflight :=
  { h with
    quiet := fun htoken => ⟨(h.quiet htoken).1, rfl⟩
    conflict := fun hkind => by cases hkind
    held := fun _ hkind => by cases hkind }

theorem withoutHold_evolves (avoided : Defect → Prop) (record : RunRecord) :
    record.job.Evolves avoided record.withoutHold.job :=
  { Job.Evolves.refl record.job with request := rfl }

/-- The completion is dropped only together with the claim, so the job is quiet afterwards. -/
theorem acceptedCoordinator_sound (h : record.job.Sound ext avoided preflight)
    (hbody : record.worker.pendingCompletionBody.isSome) :
    record.acceptedCoordinator.job.Sound ext avoided preflight :=
  { h with
    rendered := fun body hnone => by cases hnone
    acknowledged := fun _ => rfl
    quiet := fun _ => ⟨rfl, rfl⟩
    conflict := fun hkind => by cases hkind
    delivered := fun _ hnone => by cases hnone
    freed := fun hredelivers _ _ => h.delivered hredelivers hbody
    held := fun _ hkind => by cases hkind }

theorem acceptedCoordinator_evolves (avoided : Defect → Prop) (record : RunRecord) :
    record.job.Evolves avoided record.acceptedCoordinator.job :=
  { Job.Evolves.refl record.job with
    body := fun _ _ => Or.inr rfl
    acknowledged := fun _ => rfl
    token := fun _ => rfl }

end Holds

theorem RecoveryAction.apply_id {action : RecoveryAction} (h : action.apply record = .ok changed) :
    changed.id = record.id := by
  cases action with
  | continueAfterCleanup => rw [(acknowledgeCleanupRecovery_eq_ok h).1]; rfl
  | confirmCleanup => rw [(confirmManualCleanup_eq_ok h).1]; rfl
  | retryCompletion => rw [(resolveCompletionConflict_eq_ok h).1]; rfl
  | acceptCoordinatorResult => rw [(resolveCompletionConflict_eq_ok h).1]; rfl

/-- An accepted action keeps the job sound. -/
theorem RecoveryAction.apply_sound {action : RecoveryAction}
    (hsound : record.job.Sound ext avoided preflight) (h : action.apply record = .ok changed) :
    changed.job.Sound ext avoided preflight := by
  cases action with
  | continueAfterCleanup =>
      obtain ⟨rfl, _, hrequired, _⟩ := acknowledgeCleanupRecovery_eq_ok h
      exact withoutHold_sound (withManualCleanup_sound hsound hrequired)
  | confirmCleanup =>
      obtain ⟨rfl, _, hrequired⟩ := confirmManualCleanup_eq_ok h
      exact withManualCleanup_sound hsound hrequired
  | retryCompletion =>
      obtain ⟨rfl, _⟩ := resolveCompletionConflict_eq_ok h
      exact withoutHold_sound hsound
  | acceptCoordinatorResult =>
      obtain ⟨rfl, _, _, hbody⟩ := resolveCompletionConflict_eq_ok h
      exact acceptedCoordinator_sound hsound hbody

/-- An accepted action undoes nothing. -/
theorem RecoveryAction.apply_evolves {action : RecoveryAction}
    (h : action.apply record = .ok changed) : record.job.Evolves avoided changed.job := by
  cases action with
  | continueAfterCleanup =>
      obtain ⟨rfl, _⟩ := acknowledgeCleanupRecovery_eq_ok h
      exact (withManualCleanup_evolves avoided record).trans (withoutHold_evolves avoided _)
  | confirmCleanup =>
      obtain ⟨rfl, _⟩ := confirmManualCleanup_eq_ok h
      exact withManualCleanup_evolves avoided record
  | retryCompletion =>
      obtain ⟨rfl, _⟩ := resolveCompletionConflict_eq_ok h
      exact withoutHold_evolves avoided record
  | acceptCoordinatorResult =>
      obtain ⟨rfl, _⟩ := resolveCompletionConflict_eq_ok h
      exact acceptedCoordinator_evolves avoided record

end PackageHarness
