/-
# PackageHarness.Protocol.Jobs — both ways to settle a job make only permitted requests.

`settleClaim` starts from a job that nothing has happened to, `settleRecovered` from any durable job
that holds a claim. Where either of them returns normally, no job holds a claim any more.
-/
import PackageHarness.Protocol.Delivery

namespace PackageHarness

open Interaction Routine

variable {ext : Externals} {avoided : Defect → Prop}

namespace Worker

variable {config : WorkerConfig} {deployment : Deployment}

/-- A durable copy with an outcome and without a body. -/
structure Concluded (ext : Externals) (avoided : Defect → Prop) (record : RunRecord)
    (ledger : Ledger) : Prop extends OpenCopy ext avoided record ledger where
  synced : Synced record ledger
  outcome : record.result.isSome ∨ record.worker.workerError.isSome

theorem Concluded.delivering {record : RunRecord} {ledger : Ledger}
    (h : Concluded ext avoided record ledger) (hfine : Runner.cleanupFailed record = false) :
    Delivering ext avoided (avoided .redeliversUncleanResult) record ledger :=
  { h with cleaned := fun _ => (h.accepts.sound.reconciled h.outcome).clean hfine }

/-- A cleanup hold for a cleanup that failed. -/
theorem pauseFailed_meets {P : RunRecord → Ledger → Prop} {Q : Unit → RunRecord → Ledger → Prop}
    {reason : String} (hP : ∀ r w, P r w → Copy ext avoided r w ∧ Runner.cleanupFailed r = true) :
    Meets (protocol ext avoided) P (pause ext .cleanup reason) Q (fun _ _ _ => True) := by
  refine pause_meets ?_
  intro r w _ h
  obtain ⟨hcopy, hfailed⟩ := hP r w h
  refine ⟨hcopy, fun hkind => by simp at hkind, fun _ _ => ?_⟩
  exact hcopy.accepts.sound.required_of_failed (cleanupFailed_iff.mp hfailed)

/-- Asking whether the heartbeat lost the claim. -/
theorem claimLost_meets {P : RunRecord → Ledger → Prop} {F : String → RunRecord → Ledger → Prop} :
    Meets (protocol ext avoided) P (.run (ask .claimLost)) (fun _ => P) F :=
  ask_meets rfl (fun _ _ _ _ => trivial) fun _ _ _ _ _ hP hanswers => ⟨hanswers, hP⟩

/-! ## A claimed job -/

/-- The copy that is read back after the controller has returned. -/
structure Reloaded (ext : Externals) (avoided : Defect → Prop)
    (execution : Except ControllerError Unit) (record : RunRecord) (ledger : Ledger) :
    Prop extends OpenCopy ext avoided record ledger where
  synced : Synced record ledger
  noError : record.worker.workerError = none
  executed : ∀ value, execution = .ok value → record.result.isSome
  failed : ∀ error, execution = .error error → avoided .doublesOutcome → record.result = none

theorem reload_meets {execution : Except ControllerError Unit} :
    Meets (protocol ext avoided)
      (byOutcome (fun _ r w => Finished r.id w) (fun _ r w => LeftOpen avoided r.id w) execution)
      reload (fun _ => Reloaded ext avoided execution) (fun _ _ _ => True) := by
  refine Meets.bind_read fun t => ?_
  refine Meets.bind (Q := fun answer _ w => ∀ found, answer = .ok (some found) →
    Reloaded ext avoided execution found w) (Meets.run ?_) fun answer => ?_
  · intro r w hinv hpre
    obtain ⟨rfl, hleft⟩ := hpre
    have hunheld : w.Unheld t.id := by
      rcases execution with error | _
      · obtain ⟨record, hrecord, _, _, _, hhold, _⟩ := hleft
        exact fun found hfound => by cases hrecord.symm.trans hfound; exact hhold
      · obtain ⟨record, hrecord, _, _, _, _, hhold⟩ := hleft
        exact fun found hfound => by cases hrecord.symm.trans hfound; exact hhold
    refine onBehalf_safe (Runner.ask_safe (.get t.id) hinv hunheld ?_)
    intro answer after hget _ _ found hanswer
    obtain ⟨rfl, hfound⟩ := hget
    have hstore : after.store t.id = some found := (hfound _ hanswer).symm
    have hid : found.id = t.id := RunStore.id_of_lookup hstore
    have hsynced : Synced found after := by
      show after.store found.id = some found.persisted
      rw [hid, hinv.stored hstore]
      exact hstore
    rcases execution with error | _
    · obtain ⟨record, hrecord, htoken, herror, hbody, _, hresult⟩ := hleft
      cases hstore.symm.trans hrecord
      exact { Copy.of_synced hinv hsynced htoken with
        noBody := hbody
        synced := hsynced
        noError := herror
        executed := fun _ h => by cases h
        failed := fun _ _ => hresult }
    · obtain ⟨record, hrecord, hresult, htoken, herror, hbody, _⟩ := hleft
      cases hstore.symm.trans hrecord
      exact { Copy.of_synced hinv hsynced htoken with
        noBody := hbody
        synced := hsynced
        noError := herror
        executed := fun _ _ => hresult
        failed := fun _ h => by cases h }
  · rcases answer with error | (_ | executed)
    · exact Meets.throw fun _ _ _ _ => trivial
    · exact Meets.throw fun _ _ _ _ => trivial
    · exact Meets.update fun _ _ _ h => h executed rfl

/-- After a failed execution the target is recovered and a worker error recorded. -/
theorem settleExecution_meets {execution : Except ControllerError Unit} :
    Meets (protocol ext avoided) (Reloaded ext avoided execution)
      (settleExecution ext config execution) (fun _ => Concluded ext avoided)
      (fun _ _ _ => True) := by
  rcases execution with error | value
  · let Unsettled : RunRecord → Prop := fun r =>
      r.worker.workerError = none ∧ (avoided .doublesOutcome → r.result = none)
    refine Meets.bind (Q := fun _ r w => Unsettled r ∧ Recovered ext avoided .executionFailed r w)
      ((recoverOrPause_meets (P := Unsettled) fun _ _ _ h => h).pre ?_) fun _ => ?_
    · exact fun r w _ h => ⟨⟨h.noError, h.failed error rfl⟩, h.toOpenCopy, h.synced.mirrored⟩
    · refine (setWorkerError_meets False fun h => by cases h).weaken ?_ ?_
        fun _ _ _ _ h => h
      · intro r w _ hpre
        obtain ⟨⟨herror, hresult⟩, h⟩ := hpre
        exact { h.toOpenCopy with
          reconciled := h.reconciled
          exclusive := hresult
          replaces := fun _ error hsome => by simp [herror] at hsome
          cleaned := fun h => h.elim }
      · intro _ r w _ hpre
        obtain ⟨h, hbody⟩ := hpre
        exact { h with noBody := hbody }
  · exact Meets.pure fun r w _ h =>
      { h.toOpenCopy with synced := h.synced, outcome := Or.inl (h.executed value rfl) }

theorem executeAndSettle_meets :
    Settles ext avoided (fun r w => Claimed ext avoided r.id w r)
      (executeAndSettle ext deployment) := by
  refine Meets.bind_read fun t => ?_
  refine Meets.bind (Q := byOutcome (fun _ r w => Finished r.id w)
    fun _ r w => LeftOpen avoided r.id w) (Meets.run ?_) fun execution => ?_
  · intro r w hinv hpre
    obtain ⟨rfl, h⟩ := hpre
    refine (onBehalf_safe (Runner.execute_safe hinv h)).mono ?_
    intro execution _ _ hends
    cases execution with
    | error error => exact hends
    | ok done => exact hends
  refine Meets.bind reload_meets ?_
  intro _
  refine Meets.bind settleExecution_meets ?_
  intro _
  refine Meets.bind claimLost_meets ?_
  intro lost
  split
  · refine Meets.bind (Q := fun _ r w => True ∧ Recovered ext avoided .claimLost r w)
      ((recoverOrPause_meets (P := fun _ => True) fun _ _ _ h => h).pre ?_) fun _ => ?_
    · exact fun r w _ h => ⟨trivial, h.toOpenCopy, h.synced.mirrored⟩
    · refine releaseReconciledClaim_meets.pre ?_
      exact fun r w _ h => ⟨h.2.toOpenCopy, h.2.clean rfl⟩
  · refine Meets.bind_read fun u => ?_
    split
    · next hfailed =>
        refine pauseFailed_meets ?_
        intro r w hpre
        obtain ⟨rfl, h⟩ := hpre
        exact ⟨h.toCopy, hfailed⟩
    · next hfine =>
        refine deliverUntilTerminal_meets.pre ?_
        intro r w _ hpre
        obtain ⟨rfl, h⟩ := hpre
        exact h.delivering (by simpa using hfine)

theorem unsupportedJobReason_meets {P : RunRecord → Ledger → Prop} :
    Meets (protocol ext avoided) P (unsupportedJobReason config) (fun _ => P) (fun _ => P) := by
  refine Meets.bind_read_any fun t => ?_
  split
  · exact Meets.pure fun _ _ _ h => h
  · refine Meets.bind (listInventory_meets (by simp)) ?_
    intro packages
    split
    · exact Meets.pure fun _ _ _ h => h
    · exact Meets.pure fun _ _ _ h => h

/-- A job that is not executed is completed with a worker error. -/
theorem refuse_meets {code : WorkerErrorCode} {text : String} (hcode : code ≠ .interrupted) :
    Settles ext avoided (fun r w => Claimed ext avoided r.id w r)
      (do
        setWorkerError ext code text
        deliverUntilTerminal ext config) := by
  refine Meets.bind (Q := fun _ r w => Delivering ext avoided True r w)
    ((setWorkerError_meets _ fun h => absurd h hcode).weaken ?_ (fun _ _ _ _ h => h.1)
      fun _ _ _ _ h => h) fun _ => ?_
  · intro r w _ h
    exact {
      token := h.driving.token
      accepts := h.driving.accepts.2
      noBody := h.driving.noBody
      reconciled := fun hrequired => by
        have hrequired : r.worker.cleanupRequired = true := hrequired
        simp [h.untouched] at hrequired
      exclusive := fun _ => h.driving.unconcluded
      replaces := fun _ error hsome => by
        have hnone : r.worker.workerError = none := h.driving.noError
        simp [hnone] at hsome
      cleaned := fun _ hrequired => by
        have hrequired : r.worker.cleanupRequired = true := hrequired
        simp [h.untouched] at hrequired }
  · refine deliverUntilTerminal_meets.pre ?_
    exact fun r w _ h => { h with cleaned := fun _ => h.cleaned trivial }

/-- A job that was just claimed: refused, or executed and settled. -/
theorem settleClaim_meets :
    Settles ext avoided (fun r w => Claimed ext avoided r.id w r) (settleClaim ext deployment) := by
  refine Meets.bind (Q := fun _ r w => Claimed ext avoided r.id w r)
    (Meets.attempt (K := fun _ r w => Claimed ext avoided r.id w r) unsupportedJobReason_meets) ?_
  intro outcome
  rcases outcome with error | (_ | summary)
  · exact refuse_meets (by simp)
  · exact executeAndSettle_meets
  · exact refuse_meets (by simp)

/-! ## A job found by a restart -/

/-- A job without a result, found by a restart. -/
theorem settleInterrupted_meets :
    Settles ext avoided
      (fun r w => OpenCopy ext avoided r w ∧ Synced r w ∧ r.result = none ∧
        (avoided .replacesOutcome → ∀ error, r.worker.workerError = some error →
          error.code = .interrupted))
      (settleInterrupted ext config) := by
  let Unsettled : RunRecord → Prop := fun r => r.result = none ∧
    (avoided .replacesOutcome → ∀ error, r.worker.workerError = some error →
      error.code = .interrupted)
  refine Meets.bind (Q := fun _ r w => OpenCopy ext avoided r w ∧ Synced r w ∧ Unsettled r)
    (ask_meets rfl (fun _ _ _ _ => trivial) fun _ _ _ _ _ h hanswers => ⟨hanswers, h⟩)
    fun time => ?_
  refine Meets.bind (Q := fun _ r w => Unsettled r ∧ OpenCopy ext avoided r w ∧ Mirrored r w)
    (Meets.update ?_) fun _ => ?_
  · intro r w _ hpre
    obtain ⟨hopen, hsynced, hunsettled⟩ := hpre
    refine ⟨hunsettled, ⟨⟨hopen.token, ?_⟩, hopen.noBody⟩, hsynced.mirrored⟩
    exact hopen.accepts.interrupt hunsettled.1 time
  refine Meets.bind (recoverOrPause_meets (P := Unsettled) fun _ _ _ h => h) fun _ => ?_
  refine Meets.bind_read fun u => ?_
  split
  · next hfailed =>
      refine pauseFailed_meets ?_
      intro r w hpre
      obtain ⟨rfl, _, h⟩ := hpre
      exact ⟨h.toCopy, hfailed⟩
  · next hfine =>
      have hfine : Runner.cleanupFailed u = false := by simpa using hfine
      refine Meets.bind claimLost_meets ?_
      intro lost
      split
      · refine releaseReconciledClaim_meets.pre ?_
        intro r w _ hpre
        obtain ⟨rfl, _, h⟩ := hpre
        exact ⟨h.toOpenCopy, fun _ => h.reconciled.clean hfine⟩
      · refine Meets.bind (Q := fun _ r w => Delivering ext avoided True r w)
          ((setWorkerError_meets _ fun _ => rfl).weaken ?_ (fun _ _ _ _ h => h.1)
            fun _ _ _ _ h => h) fun _ => ?_
        · intro r w _ hpre
          obtain ⟨rfl, ⟨hresult, hreplaces⟩, h⟩ := hpre
          exact { h.toOpenCopy with
            reconciled := h.reconciled
            exclusive := fun _ => hresult
            replaces := fun havoided error hsome =>
              have hcode := hreplaces havoided error hsome
              ⟨hcode, h.accepts.sound.interrupted error hsome hcode⟩
            cleaned := fun _ => h.reconciled.clean hfine }
        · refine deliverUntilTerminal_meets.pre ?_
          exact fun r w _ h => { h with cleaned := fun _ => h.cleaned trivial }

/-- A job found by a restart: delivered at once if it can be, interrupted otherwise. -/
theorem settleRecovered_meets :
    Settles ext avoided (fun r w => Synced r w ∧ r.worker.claimToken.isSome)
      (settleRecovered ext config) := by
  refine Meets.bind (Q := fun _ r w => (Synced r w ∧ Copy ext avoided r w) ∧
    ∀ defect, avoided defect →
      ¬ defect.ShownBy (.runner r.id (.enter (.settleRecovered r))) () w)
    (mark_meets (fun _ _ _ h => h.1) fun r w hinv h havoids =>
      ⟨⟨h.1, .of_synced hinv h.1 h.2⟩, havoids⟩) fun _ => ?_
  refine Meets.bind_read fun t => ?_
  split
  · next hdeliverable =>
      refine deliverUntilTerminal_meets.pre ?_
      intro r w _ hpre
      obtain ⟨rfl, ⟨hsynced, hcopy⟩, havoids⟩ := hpre
      unfold RunRecord.deliverable at hdeliverable
      by_cases hbody : t.worker.pendingCompletionBody.isSome
      · -- a body that was persisted had passed every check before it
        exact { hcopy with
          synced := hsynced
          outcome := hcopy.accepts.sound.outcome_of_pending hbody
          cleaned := fun havoided => hcopy.accepts.sound.delivered havoided hbody }
      · have hfinished : t.status = .completed ∧ t.result.isSome := by
          simpa [hbody] using hdeliverable
        have hnone : t.worker.pendingCompletionBody = none := by simpa using hbody
        have hconcluded : Concluded ext avoided t w :=
          { hcopy with noBody := hnone, synced := hsynced, outcome := Or.inl hfinished.2 }
        -- the cleanup is not looked at again here, which is the defect
        refine { hconcluded with cleaned := fun havoided => ?_ }
        refine (hcopy.accepts.sound.reconciled (Or.inl hfinished.2)).clean ?_
        by_cases hfailed : Runner.cleanupFailed t = true
        · exact absurd ⟨hnone, hfinished, hfailed⟩ (havoids .redeliversUncleanResult havoided)
        · simpa using hfailed
  · next hundeliverable =>
      have hundeliverable : t.deliverable = false := by simpa using hundeliverable
      refine settleInterrupted_meets.pre ?_
      intro r w _ hpre
      obtain ⟨rfl, ⟨hsynced, hcopy⟩, havoids⟩ := hpre
      have hparts : t.worker.pendingCompletionBody = none ∧
          (t.status = .completed → t.result = none) := by
        simpa [RunRecord.deliverable] using hundeliverable
      refine ⟨{ hcopy with noBody := hparts.1 }, hsynced, ?_, fun havoided error hsome => ?_⟩
      · cases hresult : t.result with
        | none => rfl
        | some result =>
            have hnone := hparts.2 (hcopy.accepts.sound.concluded result hresult).1
            simp [hresult] at hnone
      · by_cases hcode : error.code = .interrupted
        · exact hcode
        · exact absurd ⟨hundeliverable, error, hsome, hcode⟩ (havoids .replacesOutcome havoided)

end Worker

end PackageHarness
