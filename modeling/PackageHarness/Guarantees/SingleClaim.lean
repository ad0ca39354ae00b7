/-
# PackageHarness.Guarantees.SingleClaim — one job at a time.

The worker asks for a job only when no durable record needs its attention, whatever the store, the
coordinator, crashes and operators do. So at most one record ever needs attention, and the branch of
`recover` for several unresolved jobs is dead.
-/
import PackageHarness.Protocol.Runs
import PackageHarness.System.Scenario

namespace PackageHarness.Machine

open Worker

variable {ext : Externals} {avoided : Defect → Prop} {machine : Machine}

/-- At most one durable record needs attention. -/
theorem Reachable.attention_unique (h : Reachable ext avoided machine) {run run' : RunId}
    {record record' : RunRecord} (hrecord : machine.Durable run record)
    (hrecord' : machine.Durable run' record') (hattention : record.requiresWorkerAttention = true)
    (hattention' : record'.requiresWorkerAttention = true) : run = run' := by
  rw [h.attention hrecord] at hattention
  rw [h.attention hrecord'] at hattention'
  exact h.consistent.single hrecord hrecord' hattention hattention'

/-- A listing has at most one record that `recover` would have to choose from. -/
theorem Reachable.unresolved_unambiguous (h : Reachable ext avoided machine)
    {records : List RunRecord} (hlists : machine.2.ledger.store.Lists records) :
    unresolvedJob records ≠ .ambiguous := by
  intro hambiguous
  unfold unresolvedJob at hambiguous
  split at hambiguous
  · cases hambiguous
  · split at hambiguous <;> cases hambiguous
  · next first second rest hfilter =>
      have hfirst : first ∈ records.filter RunRecord.requiresWorkerAttention := by
        rw [hfilter]
        exact List.mem_cons_self
      have hsecond : second ∈ records.filter RunRecord.requiresWorkerAttention := by
        rw [hfilter]
        exact List.mem_cons_of_mem _ List.mem_cons_self
      obtain ⟨hfirstMem, hfirstAttention⟩ := List.mem_filter.mp hfirst
      obtain ⟨hsecondMem, hsecondAttention⟩ := List.mem_filter.mp hsecond
      have hid : first.id = second.id := h.attention_unique (hlists.mem.mp hfirstMem)
        (hlists.mem.mp hsecondMem) hfirstAttention hsecondAttention
      -- the same run would be listed twice
      have hnodup : (records.map RunRecord.id).Nodup :=
        (hlists.1.map RunRecord.id).nodup_iff.mpr machine.2.ledger.store.unique
      have htwice : [first.id, second.id].Sublist (records.map RunRecord.id) := by
        have hsub : [first, second].Sublist records := by
          have hfiltered : (records.filter RunRecord.requiresWorkerAttention).Sublist records :=
            List.filter_sublist
          rw [hfilter] at hfiltered
          refine List.Sublist.trans ?_ hfiltered
          exact List.Sublist.cons_cons _ (List.Sublist.cons_cons _ (List.nil_sublist rest))
        exact hsub.map RunRecord.id
      have hdistinct := hnodup.sublist htwice
      simp [hid] at hdistinct

/-- Every claim request finds a store without an unresolved record; there is never more than one. -/
theorem claim_finds_no_unresolved_job (h : Reachable ext noDefect machine) :
    (machine.Requests .claim → ∀ run record, machine.Durable run record →
      record.requiresWorkerAttention = false) ∧
    (∀ run run' record record', machine.Durable run record → machine.Durable run' record' →
      record.requiresWorkerAttention = true → record'.requiresWorkerAttention = true →
      run = run') ∧
    ∀ records, machine.2.ledger.store.Lists records → unresolvedJob records ≠ .ambiguous := by
  refine ⟨?_, fun run run' record record' => h.attention_unique,
    fun records => h.unresolved_unambiguous⟩
  intro hclaim run record hrecord
  -- a claim is permitted on a quiet ledger only, where every job is resolved
  have hquiet : machine.2.ledger.Quiet := h.permits hclaim
  rw [h.attention hrecord, hquiet run record hrecord]
  rfl

/-- The claim request that follows an acknowledged delivery. -/
def afterDelivery : Showing fun machine : Machine => machine.awaits WorkerRequest.claims &&
    machine.keeps Sample.run fun record =>
      record.worker.completionAcknowledged && record.worker.cleanupRequired :=
  ⟨(start Sample.ext Sample.deployment).replay (Sample.installFails Sample.claimsAgain),
    by decide +kernel⟩

theorem claim_after_delivery : afterDelivery.1.Requests .claim ∧
    (∃ record, afterDelivery.1.Durable Sample.run record ∧
      record.worker.completionAcknowledged = true) ∧
    ∀ run record, afterDelivery.1.Durable run record → record.requiresWorkerAttention = false := by
  obtain ⟨hawaits, hkeeps⟩ := Bool.and_eq_true_iff.mp afterDelivery.2
  obtain ⟨record, hrecord, htest⟩ := durable_of_keeps _ _ _ hkeeps
  have hclaim : afterDelivery.1.Requests .claim := requests_claim hawaits
  have hreachable : Reachable Sample.ext noDefect afterDelivery.1 :=
    reachable_start.replay (Or.inl rfl)
  exact ⟨hclaim, ⟨record, hrecord, (Bool.and_eq_true_iff.mp htest).1⟩,
    (claim_finds_no_unresolved_job hreachable).1 hclaim⟩

end PackageHarness.Machine
