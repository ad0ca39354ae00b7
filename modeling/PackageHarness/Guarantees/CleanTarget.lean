/-
# PackageHarness.Guarantees.CleanTarget — nothing leaves the worker before its target is clean.

Two routes around the cleanup check exist. A claim that is lost while its run executes is released
even when the reconciliation that follows has failed, and a restart delivers a finished run without
looking at its cleanup. In runs that take neither route, a claim request finds every target clean,
and no completion is sent for a run whose cleanup failed.
-/
import PackageHarness.Guarantees.Completion

namespace PackageHarness.Machine

variable {ext : Externals} {avoided : Defect → Prop} {machine : Machine} {run : RunId}

/-- The record's target was never changed, or its cleanup has passed. -/
def TargetClean (record : RunRecord) : Prop :=
  record.worker.cleanupRequired = true → record.cleanup.status = .passed

/-- The two routes around the cleanup check. -/
def cleanupBypass : Defect → Prop := fun defect =>
  defect = .releasesUncleanClaim ∨ defect = .redeliversUncleanResult

/-- Clean before claim: a claim request finds every target clean, and only the claim of a clean
target is released. -/
theorem targets_clean_before_claim (h : Reachable ext cleanupBypass machine) :
    (machine.Requests .claim → ∀ run record, machine.Durable run record → TargetClean record) ∧
    ∀ run record, machine.Requests (.runner run (.enter (.releaseReconciledClaim record))) →
      TargetClean record := by
  refine ⟨?_, ?_⟩
  · intro hclaim run record hrecord
    -- a resolved job was delivered or released, and both ask for a clean target here
    have hquiet : machine.2.ledger.Quiet := h.permits hclaim
    exact (h.sound hrecord).freed (Or.inr rfl) (Or.inl rfl) (hquiet run record hrecord)
  · intro run record hrelease
    exact h.permits hrelease (Or.inl rfl)

theorem clean_after_delivery : afterDelivery.1.Requests .claim ∧
    (∃ record, afterDelivery.1.Durable Sample.run record ∧ record.worker.cleanupRequired = true) ∧
    ∀ run record, afterDelivery.1.Durable run record → TargetClean record := by
  obtain ⟨hawaits, hkeeps⟩ := Bool.and_eq_true_iff.mp afterDelivery.2
  obtain ⟨record, hrecord, htest⟩ := durable_of_keeps _ _ _ hkeeps
  have hclaim : afterDelivery.1.Requests .claim := requests_claim hawaits
  have hreachable : Reachable Sample.ext cleanupBypass afterDelivery.1 :=
    reachable_start.replay (Or.inl rfl)
  exact ⟨hclaim, ⟨record, hrecord, (Bool.and_eq_true_iff.mp htest).2⟩,
    (targets_clean_before_claim hreachable).1 hclaim⟩

/-- The claim request that follows a claim which was lost while the run executed. -/
def afterLostClaim : Showing fun machine : Machine => machine.awaits WorkerRequest.claims &&
    machine.keeps Sample.run fun record =>
      record.worker.cleanupRequired && record.cleanup.status = .failed :=
  ⟨(start Sample.ext Sample.deployment).replay (Sample.claimLost Sample.claimsAgain),
    by decide +kernel⟩

/-- The lost claim is released although its target could not be cleaned. -/
theorem lost_claim_leaves_target_unclean : ¬ ∀ ext machine run record,
    Reachable ext noDefect machine → machine.Requests .claim → machine.Durable run record →
    TargetClean record := by
  intro hclaim
  obtain ⟨hawaits, hkeeps⟩ := Bool.and_eq_true_iff.mp afterLostClaim.2
  obtain ⟨record, hrecord, htest⟩ := durable_of_keeps _ _ _ hkeeps
  simp only [Bool.and_eq_true, decide_eq_true_eq] at htest
  obtain ⟨hrequired, hfailed⟩ := htest
  have hclean := hclaim Sample.ext afterLostClaim.1 Sample.run record
    (reachable_start.replay (Or.inr fun _ h => h)) (requests_claim hawaits) hrecord hrequired
  rw [hfailed] at hclean
  cases hclean

/-- No completion is sent, and no delivery starts, for a run whose cleanup failed. -/
theorem failed_cleanup_withholds_delivery
    (h : Reachable ext (· = .redeliversUncleanResult) machine) :
    (∀ body record, machine.Requests (.completeRaw run body) → machine.Durable run record →
      ¬ (record.worker.cleanupRequired = true ∧
        (record.cleanup.status = .failed ∨ record.cleanup.status = .timedOut))) ∧
    ∀ record, machine.Requests (.runner run (.enter (.deliverUntilTerminal record))) →
      Runner.cleanupFailed record = false := by
  have clean_not_failed : ∀ record : RunRecord, record.job.Clean →
      record.worker.cleanupRequired = true →
      ¬ (record.cleanup.status = .failed ∨ record.cleanup.status = .timedOut) := by
    intro record hclean hrequired hfailed
    have hpassed : record.cleanup.status = .passed := hclean hrequired
    rcases hfailed with hstatus | hstatus <;> simp [hpassed] at hstatus
  refine ⟨?_, ?_⟩
  · intro body record hsend hrecord hpre
    -- what is sent is the durable body, and a record with a body has a clean target
    obtain ⟨hrequired, hfailed⟩ := hpre
    obtain ⟨record', hrecord', hbody, _⟩ := h.sends_durable hsend
    have hsame : record = record' := Option.some.inj (hrecord.symm.trans hrecord')
    subst hsame
    have hclean := (h.sound hrecord).delivered rfl (Option.isSome_iff_exists.mpr ⟨_, hbody⟩)
    exact clean_not_failed record hclean hrequired hfailed
  · intro record hdeliver
    obtain ⟨hid, hdeliverable⟩ := h.permits hdeliver
    have hdurable : machine.Durable run record.persisted := hid ▸ hdeliverable.durable
    have hsound := h.sound hdurable
    rw [RunRecord.persisted_job] at hsound
    cases hfailed : Runner.cleanupFailed record with
    | false => rfl
    | true =>
        have hstatus := cleanupFailed_iff.mp hfailed
        have hrequired := hsound.required_of_failed hstatus
        exact absurd hstatus (clean_not_failed record (hdeliverable.clean rfl) hrequired)

theorem send_after_clean_up : ∃ body record, atSend.1.Requests (.completeRaw Sample.run body) ∧
    atSend.1.Durable Sample.run record ∧ ¬ (record.worker.cleanupRequired = true ∧
      (record.cleanup.status = .failed ∨ record.cleanup.status = .timedOut)) := by
  obtain ⟨hawaits, hkeeps⟩ := Bool.and_eq_true_iff.mp atSend.2
  obtain ⟨body, hsend, _⟩ := requests_send _ _ _ hawaits
  obtain ⟨record, hrecord, _⟩ := durable_of_keeps _ _ _ hkeeps
  exact ⟨body, record, hsend, hrecord,
    (failed_cleanup_withholds_delivery atSend_reachable).1 body record hsend hrecord⟩

/-- The controller is done, its cleanup has failed, and the hold is not saved yet. -/
def beforeHold : Machine :=
  (start Sample.ext Sample.deployment).replay (Sample.cleanupFails fun _ request =>
    request.saves (.manualRecovery .cleanup))

def beforeHoldAfterRestart : Showing fun machine : Machine =>
    machine.awaits (WorkerRequest.sends Sample.run fun _ => true) &&
    machine.keeps Sample.run fun record =>
      record.worker.cleanupRequired && record.cleanup.status = .failed :=
  ⟨(beforeHold.restart Sample.ext Sample.deployment).replay (Sample.cleanupFails Sample.sends),
    by decide +kernel⟩

/-- A restart delivers the result that an uninterrupted worker would have withheld. -/
theorem restart_delivers_unclean_result : ¬ ∀ ext machine run body record,
    Reachable ext noDefect machine → machine.Requests (.completeRaw run body) →
    machine.Durable run record → ¬ (record.worker.cleanupRequired = true ∧
      (record.cleanup.status = .failed ∨ record.cleanup.status = .timedOut)) := by
  intro hclaim
  have hnone : ∀ defect, ¬ noDefect defect := fun _ h => h
  obtain ⟨hawaits, hkeeps⟩ := Bool.and_eq_true_iff.mp beforeHoldAfterRestart.2
  obtain ⟨body, hsend, _⟩ := requests_send _ _ _ hawaits
  obtain ⟨record, hrecord, htest⟩ := durable_of_keeps _ _ _ hkeeps
  simp only [Bool.and_eq_true, decide_eq_true_eq] at htest
  have hreachable : Reachable Sample.ext noDefect beforeHoldAfterRestart.1 :=
    Reachable.replay (Reachable.restart (reachable_start.replay (Or.inr hnone))) (Or.inr hnone)
  exact hclaim Sample.ext beforeHoldAfterRestart.1 Sample.run body record hreachable hsend hrecord
    ⟨htest.1, Or.inl htest.2⟩

end PackageHarness.Machine
