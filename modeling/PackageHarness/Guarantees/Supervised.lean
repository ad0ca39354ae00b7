/-
# PackageHarness.Guarantees.Supervised — what the heartbeat task does, and what it says.

The machine stands for the heartbeat task by the moves that it may make at any time. The task's own
program makes no others, so what was proved of the machine holds with the task at work. And a snapshot
of the job's progress that was read after a mutating call since the job got that progress tells the
coordinator that the target has to be cleaned up. What an earlier process did for the job is not
counted: there the progress starts from the stored record.
-/
import PackageHarness.System.Supervision

namespace PackageHarness

open Interaction Relation

variable {ext : Externals} {avoided : Defect → Prop}

/-! ## A first heartbeat -/

namespace SupervisedWorld

/-- The surroundings of the worker where nothing moves on its own. -/
def undisturbed : Semantics WorkerRequest WorkerRequest.Answer SupervisedWorld where
  answer := (supervision noDefect).answer
  drift := fun _ _ _ => False

/-- The scenario as a script for the worker. -/
def reply (scenario : Scenario) : Script WorkerRequest WorkerRequest.Answer SupervisedWorld :=
  fun s request => (World.reply scenario s.world request).map fun (answer, world) =>
    (answer, { s.note request with world })

theorem reply_admitted {scenario : Scenario} (hcalm : ∀ site, scenario.losesClaimAt site = false) :
    (reply scenario).Admitted undisturbed := by
  intro s request answer after h
  obtain ⟨⟨answer, world⟩, hreply, hafter⟩ := Option.map_eq_some_iff.mp h
  cases hafter
  unfold World.reply at hreply
  split at hreply
  · cases hreply
  · have hanswer := World.answer_answers hreply
    rw [World.during_calm hcalm] at hanswer
    exact ⟨s, .refl, ⟨⟨hanswer.1, fun _ hdefect => hdefect.elim⟩, hanswer.2⟩, rfl⟩

end SupervisedWorld

namespace Supervised

/-- The task, if there is one, has not started yet. -/
def Fresh (task : Option HeartbeatTask) : Prop :=
  ∀ spawned, task = some spawned → spawned = .spawn spawned.jobId spawned.claimToken

theorem Fresh.next {task : Option HeartbeatTask} (h : Fresh task) (request : WorkerRequest) :
    Fresh (HeartbeatTask.next task request) := by
  cases request with
  | startHeartbeat jobId claimToken =>
      intro spawned hspawned
      cases hspawned
      rfl
  | stopHeartbeat => exact nofun
  | _ => exact h

/-- The worker can go on for as long as it likes without the task. -/
theorem runs_undisturbed {before after : Worker Unit × SupervisedWorld}
    (h : Reaches SupervisedWorld.undisturbed before after) :
    ∃ task, Fresh task ∧
      Runs ext noDefect ⟨before.1, none, before.2⟩ ⟨after.1, task, after.2⟩ := by
  induction h with
  | refl => exact ⟨none, nofun, .refl⟩
  | tail _ hstep ih =>
      obtain ⟨task, hfresh, hruns⟩ := ih
      cases hstep with
      | answer hanswer => exact ⟨_, hfresh.next _, hruns.tail (.answer hanswer)⟩
      | drift hdrift => exact hdrift.elim
      | unroll => exact ⟨task, hfresh, hruns.tail .unroll⟩

/-- A task that was spawned can get as far as its first heartbeat. -/
theorem Reachable.first_heartbeat {request : WorkerRequest} {next : request.Answer → Worker Unit}
    {jobId : RunId} {claimToken : String} {scene : SupervisedWorld}
    (h : Reachable ext avoided
      ⟨.request request next, some (.spawn jobId claimToken), scene⟩) :
    ∃ s sent, Reachable ext avoided s ∧ s.Sends sent ∧
      s.scene.lastRead = some ⟨scene.snapshot, scene.touched || request.touches⟩ := by
  obtain ⟨deployment, hruns⟩ := h
  obtain ⟨rest, hsteps⟩ : ∃ rest, ReflTransGen (Interaction.Step (beating request))
      (HeartbeatTask.start jobId claimToken, scene)
      (.request (.heartbeat ⟨jobId, claimToken, scene.snapshot.phase.protocolName,
        scene.snapshot.cleanupRequired⟩) rest,
        { scene with lastRead := some ⟨scene.snapshot, scene.touched || request.touches⟩ }) := by
    apply Exists.intro
    refine .head .unroll ?_
    refine .head (.answer (r := ()) rfl) ?_
    refine .head (.answer (r := false) ⟨nofun, rfl⟩) ?_
    exact .head (.answer (r := scene.snapshot) ⟨rfl, rfl⟩) .refl
  let beats (c : Beat Unit × SupervisedWorld) : Supervised :=
    ⟨.request request next, some ⟨jobId, claimToken, c.1⟩, c.2⟩
  have hbeats : Runs ext avoided (beats (HeartbeatTask.start jobId claimToken, scene)) (beats _) :=
    hsteps.lift beats fun _ _ hstep => .beat hstep
  exact ⟨_, _, ⟨deployment, hruns.trans hbeats⟩, ⟨_, rest, rfl, rfl⟩, rfl⟩

/-- The first mutating call of the sample job is about to be made. -/
def touching : Showing fun c : Worker Unit × SupervisedWorld =>
    c.1.pending.any WorkerRequest.touches && c.2.world.process.heartbeat :=
  ⟨Program.replay
    (SupervisedWorld.reply (Sample.installFails fun _ request => request.touches)) 2000
    (Worker.run Sample.ext Sample.deployment, { world := .initial }), by decide +kernel⟩

/-- The task can send a heartbeat then, which it has read the progress for. -/
theorem touching_sends : ∃ s sent, Reachable Sample.ext noDefect s ∧ s.Sends sent ∧
    ∃ reading, s.scene.lastRead = some reading ∧ reading.touched = true := by
  obtain ⟨hpending, hheartbeat⟩ := Bool.and_eq_true_iff.mp touching.2
  obtain ⟨request, hpending, htouches⟩ := Option.any_eq_true _ _ |>.mp hpending
  obtain ⟨next, hworker⟩ := Program.pending_eq_some hpending
  have hadmitted :
      (SupervisedWorld.reply (Sample.installFails fun _ request => request.touches)).Admitted
        SupervisedWorld.undisturbed :=
    SupervisedWorld.reply_admitted fun _ => rfl
  obtain ⟨task, hfresh, hruns⟩ := runs_undisturbed <| Program.reaches_replay hadmitted 2000
    (Worker.run Sample.ext Sample.deployment, { world := .initial })
  have hreachable : Reachable Sample.ext noDefect ⟨touching.1.1, task, touching.1.2⟩ :=
    ⟨Sample.deployment, hruns⟩
  have hbeats : touching.1.2.world.process.heartbeat = task.isSome :=
    hreachable.runs_machine.2
  rw [hheartbeat] at hbeats
  obtain ⟨spawned, rfl⟩ := Option.isSome_iff_exists.mp hbeats.symm
  rw [hworker, hfresh spawned rfl] at hreachable
  obtain ⟨s, sent, hfirst, hsends, hread⟩ := hreachable.first_heartbeat
  refine ⟨s, sent, hfirst, hsends, _, hread, ?_⟩
  show (touching.1.2.touched || request.touches) = true
  rw [htouches, Bool.or_true]

/-! ## The results -/

/-- Whatever the worker and its task do, the machine can do. -/
theorem supervised_machine {s : Supervised} (h : Reachable ext avoided s) :
    Machine.Reachable ext avoided s.machine := h.runs_machine.1

theorem supervised_machine_sample :
    ∃ (s : Supervised) (sent : Heartbeat), s.Sends sent ∧
      Machine.Reachable Sample.ext noDefect s.machine := by
  obtain ⟨s, sent, hreachable, hsends, _⟩ := touching_sends
  exact ⟨s, sent, hsends, supervised_machine hreachable⟩

/-- A heartbeat that is sent is one for the supervised job, and tells what the task has read last of
its progress. Where it has read it after a mutating call was made since the job got this progress, or
while one was pending, it tells that the target has to be cleaned up. -/
theorem heartbeats_warn {s : Supervised} (h : Reachable ext avoided s) {sent : Heartbeat}
    (hsends : s.Sends sent) :
    ∃ task reading, s.task = some task ∧ s.scene.lastRead = some reading ∧
      sent = ⟨task.jobId, task.claimToken, reading.snapshot.phase.protocolName,
        reading.snapshot.cleanupRequired⟩ ∧
      (reading.touched = true → sent.cleanupRequired = true) := by
  obtain ⟨task, next, htask, hrest⟩ := hsends
  obtain ⟨_, hread, hreports⟩ := h.honest
  have hsafe := hreports task htask
  rw [hrest] at hsafe
  -- the heartbeat is a request of the task, so it obeys what the task keeps to
  obtain ⟨snapshot, hlast, rfl⟩ := hsafe.obeys.2.1 _ next rfl
  obtain ⟨reading, hreading, rfl⟩ := Option.map_eq_some_iff.mp hlast
  exact ⟨task, reading, htask, hreading, rfl, hread reading hreading⟩

theorem heartbeats_warn_sample :
    ∃ s sent, Reachable Sample.ext noDefect s ∧ s.Sends sent ∧ sent.cleanupRequired = true := by
  obtain ⟨s, sent, hreachable, hsends, reading, hreading, htouched⟩ := touching_sends
  obtain ⟨_, _, _, hlast, _, hwarns⟩ := heartbeats_warn hreachable hsends
  cases hreading.symm.trans hlast
  exact ⟨s, sent, hreachable, hsends, hwarns htouched⟩

end Supervised

end PackageHarness
