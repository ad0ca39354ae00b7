/-
# PackageHarness.Protocol.Runs — from one process to all runs of the system.

A machine projects onto the ledger, and what it can do from there is covered by the discipline. So
every reachable machine has a consistent ledger, waits only for permitted requests, and every later
ledger evolves from the earlier one, across crashes, restarts and operator actions.
-/
import PackageHarness.Protocol.Polling

namespace PackageHarness

open Interaction Relation

variable {ext : Externals} {avoided : Defect → Prop}

namespace Machine

/-- The machine is in the hands of the protocol. -/
abbrev Lawful (ext : Externals) (avoided : Defect → Prop) (machine : Machine) : Prop :=
  Safe (protocol ext avoided) (fun _ _ => True) machine.1 machine.2.ledger

/-- Moves of the worker and of its surroundings show on the ledger as the protocol's moves. -/
theorem reaches_protocol {before after : Machine}
    (h : Interaction.Step (surroundings avoided) before after) :
    Reaches (protocol ext avoided).toSemantics (before.1, before.2.ledger)
      (after.1, after.2.ledger) := by
  refine Reaches.project World.ledger ?_ ?_ (ReflTransGen.single h)
  · intro world request answer world' hanswer
    obtain ⟨hanswers, _⟩ := hanswer
    exact hanswers
  · intro request world world' h
    -- other tasks of the process do not show, recovery actions do
    rcases h with ⟨hsame, _⟩ | ⟨hfree, hoperates⟩
    · exact Or.inr hsame
    · refine Or.inl ⟨hfree, ?_⟩
      cases hoperates with
      | @accepted action run ledger h => exact ⟨action, run, .ok (), h⟩
      | @failed action run error ledger h => exact ⟨action, run, .error error, h⟩

theorem World.Operates.follows {world after : World}
    (hinv : world.ledger.Consistent ext avoided) (h : world.Operates after) :
    world.ledger.Follows ext avoided after.ledger := by
  cases h with
  | accepted h => exact .operate hinv h
  | failed h => exact .operate hinv h

/-- One step of a lawful machine leaves a lawful machine and moves every job forward. -/
theorem Step.lawful {before after : Machine} (hlawful : Lawful ext avoided before)
    (h : Step ext avoided before after) :
    Lawful ext avoided after ∧ before.2.ledger.Evolves avoided after.2.ledger := by
  cases h with
  | work hstep =>
      refine ⟨hlawful.reaches (reaches_protocol hstep), ?_⟩
      cases hstep with
      | @answer request next world answer world' hanswers =>
          have hpermits := (hlawful _ _ .refl).2.1 request next rfl
          exact (Ledger.Follows.answer hlawful.inv hpermits hanswers.1.1).evolves
      | drift hdrift =>
          rcases hdrift with ⟨hsame, _⟩ | ⟨_, hoperates⟩
          · rw [hsame]
            exact .refl _
          · exact (World.Operates.follows hlawful.inv hoperates).evolves
      | unroll => exact .refl _
  | operate hoperates =>
      have hfollows := World.Operates.follows hlawful.inv hoperates
      exact ⟨Safe.pure hfollows.consistent trivial, hfollows.evolves⟩
  -- a new process needs nothing but a consistent ledger
  | restart => exact ⟨Worker.run_safe hlawful.inv, .refl _⟩

theorem start_lawful (deployment : Deployment) : Lawful ext avoided (start ext deployment) :=
  Worker.run_safe .empty

/-- What the steps of a run preserve, from any lawful machine. -/
theorem Runs.lawful {before after : Machine} (hlawful : Lawful ext avoided before)
    (h : Runs ext avoided before after) :
    Lawful ext avoided after ∧ before.2.ledger.Evolves avoided after.2.ledger := by
  induction h with
  | refl => exact ⟨hlawful, .refl _⟩
  | tail _ hstep ih =>
      obtain ⟨hlawful', hevolves⟩ := ih
      obtain ⟨hlawful'', hevolves'⟩ := hstep.lawful hlawful'
      exact ⟨hlawful'', hevolves.trans hevolves'⟩

namespace Reachable

variable {machine later : Machine}

theorem lawful (h : Reachable ext avoided machine) : Lawful ext avoided machine := by
  obtain ⟨deployment, hruns⟩ := h
  exact (hruns.lawful (start_lawful deployment)).1

theorem runs (h : Reachable ext avoided machine) (hruns : Runs ext avoided machine later) :
    Reachable ext avoided later := by
  obtain ⟨deployment, hstart⟩ := h
  exact ⟨deployment, hstart.trans hruns⟩

theorem consistent (h : Reachable ext avoided machine) :
    machine.2.ledger.Consistent ext avoided := h.lawful.inv

theorem permits (h : Reachable ext avoided machine) {request : WorkerRequest}
    (hrequest : machine.Requests request) : machine.2.ledger.Permits ext avoided request := by
  obtain ⟨next, hnext⟩ := hrequest
  exact (h.lawful _ _ .refl).2.1 request next hnext

theorem evolves (h : Reachable ext avoided machine) (hruns : Runs ext avoided machine later) :
    machine.2.ledger.Evolves avoided later.2.ledger :=
  (hruns.lawful h.lawful).2

theorem sound (h : Reachable ext avoided machine) {run : RunId} {record : RunRecord}
    (hrecord : machine.Durable run record) :
    record.job.Sound ext avoided machine.2.ledger.preflight := h.consistent.sound hrecord

/-- Attention is a matter of the claim token. -/
theorem attention (h : Reachable ext avoided machine) {run : RunId} {record : RunRecord}
    (hrecord : machine.Durable run record) :
    record.requiresWorkerAttention = record.worker.claimToken.isSome :=
  h.consistent.requiresWorkerAttention hrecord

end Reachable

end Machine

end PackageHarness
