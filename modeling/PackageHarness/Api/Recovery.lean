/-
# PackageHarness.Api.Recovery — the operator's recovery actions.

Each action reads one record, checks its guards, changes the record and saves it as a whole;
`RecoveryAction.apply` is the part between the read and the save. Nothing keeps the worker or
another action from writing the same record in between.
-/
import PackageHarness.Worker.Loop

namespace PackageHarness

open Interaction

inductive OperatorRecoveryError
  | notFound
  | notWaiting
  | notCleanup
  | notCompletionConflict
  | cleanupNotConfirmed
  | missingCompletion
  | store (message : String)

namespace OperatorRecoveryError

def toText : OperatorRecoveryError → String
  | notFound => "run record was not found"
  | notWaiting => "run is not waiting for manual recovery"
  | notCleanup => "manual recovery hold is not a cleanup hold"
  | notCompletionConflict => "manual recovery hold is not a completion conflict"
  | cleanupNotConfirmed => "completion conflict cannot be released until cleanup is confirmed"
  | missingCompletion => "persisted completion is missing"
  | store message => s!"cannot access run record: {message}"

/-- The HTTP status of the error response. -/
def status : OperatorRecoveryError → Nat
  | notFound => 404
  | notWaiting | notCleanup | notCompletionConflict | cleanupNotConfirmed | missingCompletion => 409
  | store _ => 500

end OperatorRecoveryError

/-! ## What an action does to a record -/

namespace RunRecord

def withManualCleanup (record : RunRecord) : RunRecord :=
  { record with cleanup := ⟨.passed, [], none⟩ }

def withoutHold (record : RunRecord) : RunRecord :=
  { record with worker := record.worker.clearManualRecovery }

/-- The coordinator's result stands: the local completion is dropped. -/
def acceptedCoordinator (record : RunRecord) : RunRecord :=
  { record with worker := { record.worker with
      manualRecovery := none
      pendingCompletionBody := none
      claimToken := none
      completionAcknowledged := true
      completionDisposition := some "operator_accepted_coordinator" } }

end RunRecord

/-- The body of `acknowledge_cleanup_recovery`. -/
def acknowledgeCleanupRecovery (record : RunRecord) : Except OperatorRecoveryError RunRecord :=
  if record.worker.manualRecovery.isNone then
    .error .notWaiting
  else if !record.worker.cleanupRequired ∨ record.worker.manualRecoveryKind ≠ some .cleanup then
    .error .notCleanup
  else
    .ok record.withManualCleanup.withoutHold

/-- The body of `confirm_manual_cleanup`, which keeps the hold whatever its kind is. -/
def confirmManualCleanup (record : RunRecord) : Except OperatorRecoveryError RunRecord :=
  if record.worker.manualRecovery.isNone then
    .error .notWaiting
  -- a completion conflict may have its cleanup confirmed as well
  else if !record.worker.cleanupRequired then
    .error .notCleanup
  else
    .ok record.withManualCleanup

/-- The body of `resolve_completion_conflict`. -/
def resolveCompletionConflict (acceptCoordinatorResult : Bool) (record : RunRecord) :
    Except OperatorRecoveryError RunRecord :=
  if record.worker.manualRecovery.isNone then
    .error .notWaiting
  else if record.worker.manualRecoveryKind ≠ some .completionConflict then
    .error .notCompletionConflict
  else if record.cleanup.status ≠ .passed ∧ record.cleanup.status ≠ .skipped then
    .error .cleanupNotConfirmed
  else if record.worker.pendingCompletionBody.isNone then
    .error .missingCompletion
  else if acceptCoordinatorResult then
    .ok record.acceptedCoordinator
  else
    .ok record.withoutHold

namespace RecoveryAction

def apply : RecoveryAction → RunRecord → Except OperatorRecoveryError RunRecord
  | .continueAfterCleanup => acknowledgeCleanupRecovery
  | .confirmCleanup => confirmManualCleanup
  | .retryCompletion => resolveCompletionConflict false
  | .acceptCoordinatorResult => resolveCompletionConflict true

/-- Confirming a cleanup keeps the hold, so it is the one action that does not wake the worker. -/
def resumesWorker : RecoveryAction → Bool
  | .confirmCleanup => false
  | .continueAfterCleanup | .retryCompletion | .acceptCoordinatorResult => true

/-- What a handler does once the changed record is durable. -/
def finish (action : RecoveryAction) : Worker (Except OperatorRecoveryError Unit) := do
  if action.resumesWorker then Worker.ask .recoveryResume else pure ()
  return .ok ()

/-- The second half of a handler: the changed record replaces whatever is stored. -/
def store (action : RecoveryAction) (runId : RunId) (changed : RunRecord) :
    Worker (Except OperatorRecoveryError Unit) := do
  match ← Worker.onBehalf runId (Runner.save (.operator action) changed) with
  | .error error => return .error (.store error.toText)
  | .ok _ => action.finish

/-- What a handler does with the record that it read. -/
def proceed (action : RecoveryAction) (runId : RunId) :
    Except StoreError (Option RunRecord) → Worker (Except OperatorRecoveryError Unit)
  | .error error => return .error (.store error.toText)
  | .ok none => return .error .notFound
  | .ok (some record) =>
      match action.apply record with
      | .error error => return .error error
      | .ok changed => action.store runId changed

/-- The request handler of an action. -/
def handle (action : RecoveryAction) (runId : RunId) :
    Worker (Except OperatorRecoveryError Unit) := do
  action.proceed runId (← Worker.onBehalf runId (Runner.get runId))

/-- A handler that has read is done with an error, or about to write. -/
theorem proceed_cases (action : RecoveryAction) (runId : RunId)
    (found : Except StoreError (Option RunRecord)) :
    (∃ error, action.proceed runId found = .pure (.error error)) ∨
      ∃ changed, action.proceed runId found = action.store runId changed := by
  rcases found with error | _ | record
  · exact Or.inl ⟨_, rfl⟩
  · exact Or.inl ⟨_, rfl⟩
  · cases happly : action.apply record with
    | error error =>
        refine Or.inl ⟨error, ?_⟩
        rw [proceed, happly]
        rfl
    | ok changed =>
        refine Or.inr ⟨changed, ?_⟩
        rw [proceed, happly]

end RecoveryAction

/-! ## The guards, as what they let through -/

theorem acknowledgeCleanupRecovery_eq_ok {record changed : RunRecord}
    (h : acknowledgeCleanupRecovery record = .ok changed) :
    changed = record.withManualCleanup.withoutHold ∧ record.worker.manualRecovery.isSome ∧
      record.worker.cleanupRequired = true ∧
      record.worker.manualRecoveryKind = some .cleanup := by
  unfold acknowledgeCleanupRecovery at h
  split at h
  · cases h
  · split at h
    · cases h
    · next hwaiting hguard =>
        injection h with h
        obtain ⟨hrequired, hkind⟩ := not_or.mp hguard
        refine ⟨h.symm, ?_, by simpa using hrequired, Decidable.not_not.mp hkind⟩
        simpa [Option.isSome_iff_ne_none] using hwaiting

theorem confirmManualCleanup_eq_ok {record changed : RunRecord}
    (h : confirmManualCleanup record = .ok changed) :
    changed = record.withManualCleanup ∧ record.worker.manualRecovery.isSome ∧
      record.worker.cleanupRequired = true := by
  unfold confirmManualCleanup at h
  split at h
  · cases h
  · split at h
    · cases h
    · next hwaiting hguard =>
        injection h with h
        refine ⟨h.symm, ?_, by simpa using hguard⟩
        simpa [Option.isSome_iff_ne_none] using hwaiting

theorem resolveCompletionConflict_eq_ok {accept : Bool} {record changed : RunRecord}
    (h : resolveCompletionConflict accept record = .ok changed) :
    changed = (if accept then record.acceptedCoordinator else record.withoutHold) ∧
      record.worker.manualRecoveryKind = some .completionConflict ∧
      (record.cleanup.status = .passed ∨ record.cleanup.status = .skipped) ∧
      record.worker.pendingCompletionBody.isSome := by
  unfold resolveCompletionConflict at h
  split at h
  · cases h
  · split at h
    · cases h
    · split at h
      · cases h
      · split at h
        · cases h
        · next _ hkind hcleanup hbody =>
            have hpassed : record.cleanup.status = .passed ∨ record.cleanup.status = .skipped :=
              Decidable.not_not.mp fun hneither => hcleanup (not_or.mp hneither)
            refine ⟨?_, Decidable.not_not.mp hkind, hpassed, ?_⟩
            · cases accept <;> exact (Except.ok.inj h).symm
            · simpa [Option.isSome_iff_ne_none] using hbody

end PackageHarness
