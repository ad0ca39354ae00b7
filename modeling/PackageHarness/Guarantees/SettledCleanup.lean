/-
# PackageHarness.Guarantees.SettledCleanup — a passed cleanup is never repeated.

Every mutating call is made under a durable record whose cleanup has not passed, and a cleanup that
has durably passed stays passed. So it makes no difference which of the four places that reconcile
a target gets its turn later, or whether the save that recorded the cleanup reported a failure.
-/
import PackageHarness.Guarantees.Completion

namespace PackageHarness.Machine

variable {ext : Externals} {avoided : Defect → Prop} {machine later : Machine} {run : RunId}

/-- A mutating call finds the run's durable cleanup undone. -/
theorem Reachable.cleanup_open (h : Reachable ext avoided machine) {call : PmCall}
    (hmutating : call.mutating = true) (hcall : machine.Requests (.runner run (.pm call))) :
    ∃ record, machine.Durable run record ∧ record.cleanup.status ≠ .passed := by
  obtain ⟨target, htarget⟩ := Option.isSome_iff_exists.mp hmutating
  obtain ⟨record, hrecord, _, _, hopen, _⟩ := ((h.permits hcall).2 target htarget).durable
  exact ⟨record, hrecord, hopen⟩

/-- Once the cleanup of a run has durably passed, no mutating call is made for the run again. -/
theorem passed_cleanup_is_final (h : Reachable ext noDefect machine) {record : RunRecord}
    (hrecord : machine.Durable run record) (hpassed : record.cleanup.status = .passed)
    (hruns : Runs ext noDefect machine later) {call : PmCall} (hmutating : call.mutating = true) :
    ¬ later.Requests (.runner run (.pm call)) := by
  intro hcall
  obtain ⟨found, hfound, hopen⟩ := (h.runs hruns).cleanup_open hmutating hcall
  obtain ⟨found', hfound', hevolves⟩ := (h.evolves hruns).store hrecord
  have hsame : found = found' := Option.some.inj (hfound.symm.trans hfound')
  subst hsame
  exact hopen (hevolves.passed hpassed)

/-- The first delivery of a job whose target was removed again. -/
def atSettledSend : Showing fun machine : Machine =>
    machine.keeps Sample.run fun record => record.cleanup.status = .passed :=
  ⟨(start Sample.ext Sample.deployment).replay (Sample.installFails Sample.sends),
    by decide +kernel⟩

theorem settled_send_is_final :
    ¬ atSettledSend.1.Requests (.runner Sample.run (.pm (.removePackage Sample.target true))) := by
  obtain ⟨record, hrecord, htest⟩ := durable_of_keeps _ _ _ atSettledSend.2
  have hpassed : record.cleanup.status = .passed := by simpa using htest
  have hreachable : Reachable Sample.ext noDefect atSettledSend.1 :=
    reachable_start.replay (Or.inl rfl)
  exact passed_cleanup_is_final hreachable hrecord hpassed .refl rfl

end PackageHarness.Machine
