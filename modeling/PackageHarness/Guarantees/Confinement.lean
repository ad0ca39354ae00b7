/-
# PackageHarness.Guarantees.Confinement — a run changes its target and no other package.

A package is changed on behalf of a run by its execution or by a recovery. Either way the package is
the one that the run was claimed for, it is not the harness itself, and the inventory that the
execution or the recovery read last before it changed anything does not list it as a core package.
-/
import PackageHarness.Guarantees.SingleRun
import PackageHarness.System.Provenance

namespace PackageHarness

open Interaction Sequence

/-- What a run may change. -/
structure Life.Confined (life : Life) (run : RunId) (target : DnpName) : Prop where
  claimed : ∃ job, life.Claimed job ∧ job.request.runId = run ∧
    life.world.ledger.store.requestOf run = some job.request ∧
    job.request.package.dnpName = target
  foreign : target.value ≠ life.deployment.worker.harnessDnpName
  /-- An execution after the creation of the record, or a recovery after its own inventory. -/
  inspected : ∃ (u : Trace) (before : Chronicle),
    life.chronicle = u.onBehalf run ++ before ∧
    ((u.Mentions RunnerRequest.starts ∧ ∃ record, before.Created record ∧ record.id = run) ∨
      ∃ since packages, u = since ++ [⟨.pm (.listPackages .restartCheck), .ok packages⟩]) ∧
    u.watch.Clears target

namespace Life

variable {ext : Externals} {life : Life} {run : RunId} {call : PmCall} {target : DnpName}

/-- What is changed for a run is what it was claimed for. -/
theorem Reachable.claimed (h : Reachable ext atomicOperators life)
    (hrequest : life.Requests (.runner run (.pm call))) (hmutates : call.mutates = some target) :
    ∃ job, life.Claimed job ∧ job.request.runId = run ∧
      life.world.ledger.store.requestOf run = some job.request ∧
      job.request.package.dnpName = target := by
  obtain ⟨earlier, hmachine, hbehind⟩ := h.postponed
  have hpermits : earlier.ledger.Permits ext noDefect (.runner run (.pm call)) :=
    hmachine.permits hrequest
  obtain ⟨record, hrecord, htarget, _⟩ := (hpermits.2 target hmutates).durable
  have hdurable : life.world.ledger.store.requestOf run = some record.request := by
    rw [hbehind.ledger.requestOf]
    exact RunStore.requestOf_eq hrecord
  obtain ⟨job, hclaimed, hjob⟩ := h.attributed.claimed run record.request hdurable
  rw [← hjob] at hdurable
  refine ⟨job, hclaimed, ?_, hdurable, ?_⟩
  · rw [hjob]
    exact RunStore.id_of_lookup hrecord
  · rw [hjob]
    exact htarget

/-- A record that was created in this process asks for what the store says. -/
theorem Attributed.of_created (h : life.Attributed) {u : Trace} {before : Chronicle}
    {record : RunRecord} (hchronicle : life.chronicle = u.onBehalf run ++ before)
    (hcreated : before.Created record) :
    life.world.ledger.store.requestOf record.id = some record.request := by
  obtain ⟨since, rest, rfl, _⟩ := hcreated
  refine h.created record (List.mem_append_left _ ?_)
  rw [hchronicle, Chronicle.remarks_append, Chronicle.remarks_append]
  exact List.mem_append_right _ (List.mem_append_right _ (List.mem_cons_self ..))

end Life

/-- Whatever is changed for a run is its target, and may be changed. -/
theorem changes_confined {ext : Externals} {life : Life} {run : RunId} {call : PmCall}
    {target : DnpName} (h : Life.Reachable ext atomicOperators life)
    (hrequest : life.Requests (.runner run (.pm call))) (hmutates : call.mutates = some target) :
    life.Confined run target := by
  obtain ⟨job, hclaimed, hid, hdurable, htarget⟩ := h.claimed hrequest hmutates
  have hspoken : life.episode.Spoken ext := ⟨_, h.spoken, rfl⟩
  obtain ⟨next, hworker⟩ := hrequest
  have hlicensed : life.chronicle.Licensed life.deployment (.runner run (.pm call)) :=
    (Worker.run_licensed _ _ h.spoken).2.1 _ next hworker
  have hchanges : RunnerRequest.changes (.pm call) := by
    show call.mutating = true
    rw [PmCall.mutating, hmutates, Option.isSome_some]
  rcases hlicensed hchanges.not_settles with hexecuting | hrecovering
  · obtain ⟨u, before, record, hchronicle, hcreated, hrun, hforeign, hconducted⟩ := hexecuting
    have hrecord := h.attributed.of_created hchronicle hcreated
    rw [hrun, hdurable] at hrecord
    have hgenuine : u.Genuine run :=
      hspoken.genuine h.unattended.orderly.life.finds (hchronicle ▸ List.suffix_refl _) hcreated hrun
    have hcleared := (hconducted hgenuine).1 target hmutates
    refine ⟨⟨job, hclaimed, hid, hdurable, htarget⟩, ?_, u, before, hchronicle, ?_, ?_⟩
    · rw [← Option.some.inj hrecord, htarget] at hforeign
      exact hforeign
    · exact Or.inl ⟨hcleared.started, record, hcreated, hrun⟩
    · exact hcleared.inspected
  · obtain ⟨u, before, expected, plan, hchronicle, hrecovers, hreconciles⟩ := hrecovering
    obtain ⟨rfl, _⟩ := hreconciles.mutates hmutates
    exact ⟨⟨job, hclaimed, hid, hdurable, htarget⟩, hrecovers.foreign, u, before, hchronicle,
      Or.inr hrecovers.began, hrecovers.inspected⟩

/-- The installation of the sample candidate. -/
theorem updating_confined : ∃ run, updating.1.Confined run Sample.target := by
  obtain ⟨run, hrequests⟩ := updating_requests
  exact ⟨run, changes_confined updating_reachable hrequests rfl⟩

end PackageHarness
