/-
# PackageHarness.Guarantees.WriteAhead — the recovery plan is durable before the first mutation.

Once a mutating call has been requested for a run, its durable record says for good that cleanup is
required, which inventory the run started from, and which plan that inventory calls for.
-/
import PackageHarness.Guarantees.SingleClaim

namespace PackageHarness

/-- The inventory lists the package. -/
def Present (packages : List PackageSummary) (dnpName : DnpName) : Prop :=
  ∃ package ∈ packages, package.dnpName = dnpName

theorem Runner.recoveryPlanFor_restoreLatest {packages : List PackageSummary} {dnpName : DnpName} :
    recoveryPlanFor packages dnpName = .restoreLatest ↔ Present packages dnpName := by
  unfold recoveryPlanFor findInstalled Present
  split
  · next hfound =>
      simpa [List.find?_isSome] using hfound
  · next hmissing =>
      simpa [List.find?_isSome] using hmissing

theorem Runner.recoveryPlanFor_remove {packages : List PackageSummary} {dnpName : DnpName} :
    recoveryPlanFor packages dnpName = .remove ↔ ¬ Present packages dnpName := by
  rw [← recoveryPlanFor_restoreLatest]
  cases recoveryPlanFor packages dnpName <;> simp

namespace Machine

variable {ext : Externals} {avoided : Defect → Prop} {machine later : Machine} {run : RunId}

/-- The durable record of the run carries the plan that its preflight inventory calls for. -/
def PlannedAhead (machine : Machine) (run : RunId) : Prop :=
  ∃ record, machine.Durable run record ∧ record.worker.cleanupRequired = true ∧
    machine.2.ledger.preflight run = some record.evidence.initialPackages ∧
    (record.worker.targetRecovery = .restoreLatest ↔
      Present record.evidence.initialPackages record.request.package.dnpName) ∧
    (record.worker.targetRecovery = .remove ↔
      ¬ Present record.evidence.initialPackages record.request.package.dnpName)

theorem Reachable.plannedAhead (h : Reachable ext avoided machine) {record : RunRecord}
    (hrecord : machine.Durable run record) (hrequired : record.worker.cleanupRequired = true) :
    machine.PlannedAhead run := by
  obtain ⟨hinventory, hplan⟩ := (h.sound hrecord).planned hrequired
  have hid : record.id = run := RunStore.id_of_lookup hrecord
  have hplan : record.worker.targetRecovery = Runner.recoveryPlanFor
      record.evidence.initialPackages record.request.package.dnpName := hplan
  refine ⟨record, hrecord, hrequired, hid ▸ hinventory, ?_, ?_⟩
  · rw [hplan]
    exact Runner.recoveryPlanFor_restoreLatest
  · rw [hplan]
    exact Runner.recoveryPlanFor_remove

/-- A preflight inventory is read at most once for a run, and never forgotten. -/
theorem Reachable.preflight_unread (h : Reachable ext avoided machine)
    (hread : machine.Requests (.runner run (.pm (.listPackages .preflight)))) :
    machine.2.ledger.preflight run = none :=
  ((h.permits hread).1 rfl).1

/-- From the first mutating call on, the plan is durable; volumes are deleted only under a plan for
a target that the preflight inventory did not list. -/
theorem mutations_are_planned_ahead {call : PmCall} (h : Reachable ext noDefect machine)
    (hcall : machine.Requests (.runner run (.pm call))) (hmutating : call.mutating = true) :
    (∀ later, Runs ext noDefect machine later → later.PlannedAhead run) ∧
    ∀ packages target, machine.2.ledger.preflight run = some packages →
      call = .removePackage target true → ¬ Present packages target := by
  obtain ⟨target, htarget⟩ := Option.isSome_iff_exists.mp hmutating
  obtain ⟨record, hrecord, hjob, hrequired, _, hvolumes⟩ :=
    ((h.permits hcall).2 target htarget).durable
  refine ⟨?_, ?_⟩
  · intro later hruns
    -- a record keeps its requirement, and any record with it carries the plan
    obtain ⟨record', hrecord', hevolves⟩ := (h.evolves hruns).store hrecord
    exact (h.runs hruns).plannedAhead hrecord' (hevolves.required hrequired)
  · intro packages _ hpackages heq
    subst heq
    -- volumes go only under the plan to remove, which is made for an unlisted target
    obtain ⟨record', hrecord', _, hinventory, _, hremove⟩ := h.plannedAhead hrecord hrequired
    have hsame : record = record' := Option.some.inj (hrecord.symm.trans hrecord')
    subst hsame
    have hinitial : packages = record.evidence.initialPackages :=
      Option.some.inj (hpackages.symm.trans hinventory)
    have hdnpName : record.request.package.dnpName = target := hjob
    cases htarget
    rw [hinitial, ← hdnpName]
    exact hremove.mp (hvolumes rfl)

/-- The removal of a target that the preflight inventory does not list. -/
def atRemoval : Showing fun machine : Machine =>
    machine.awaits (WorkerRequest.calls Sample.run (.removePackage Sample.target true)) :=
  ⟨(start Sample.ext Sample.deployment).replay (Sample.installFails fun _ request =>
    request.calls Sample.run (.removePackage Sample.target true)), by decide +kernel⟩

theorem removal_is_planned_ahead :
    atRemoval.1.Requests (.runner Sample.run (.pm (.removePackage Sample.target true))) ∧
    atRemoval.1.PlannedAhead Sample.run ∧
    ∀ packages, atRemoval.1.2.ledger.preflight Sample.run = some packages →
      ¬ Present packages Sample.target := by
  have hcall := requests_call atRemoval.2
  have hreachable : Reachable Sample.ext noDefect atRemoval.1 :=
    reachable_start.replay (Or.inl rfl)
  obtain ⟨hplanned, hpresent⟩ := mutations_are_planned_ahead hreachable hcall rfl
  exact ⟨hcall, hplanned atRemoval.1 .refl,
    fun packages hpackages => hpresent packages Sample.target hpackages rfl⟩

end Machine

end PackageHarness
