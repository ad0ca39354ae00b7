/-
# PackageHarness.System.Supervision — the worker next to the heartbeat task that it spawns.

A supervised world is a world with the rest of the job's progress and with the task itself. The task
takes its steps while the worker waits, each of them on the shared progress, so its requests
interleave with those of the worker in any way. Two fields only observe: whether a mutating call was
made since the job got its progress, and what the task has read last.
-/
import PackageHarness.Conduct.Warnings
import PackageHarness.System.Life
import PackageHarness.Worker.Heartbeat

namespace PackageHarness

open Interaction Relation

/-! ## What the task reports -/

/-- The task's requests, with an eye on the snapshot that it has read last, which a heartbeat
reports. -/
def reporting (jobId : RunId) (claimToken : String) :
    Discipline BeatRequest BeatRequest.Answer (Option ProgressSnapshot) where
  answer := fun lastRead asked answer after =>
    match asked, answer with
    | .snapshot, answer => after = some answer
    | _, _ => after = lastRead
  drift := fun _ _ _ => False
  guard := fun lastRead asked =>
    match asked with
    | .heartbeat sent => ∃ snapshot, lastRead = some snapshot ∧
        sent = ⟨jobId, claimToken, snapshot.phase.protocolName, snapshot.cleanupRequired⟩
    | _ => True
  inv := fun _ => True
  inv_answer := fun _ _ _ => trivial
  inv_drift := fun _ _ => trivial

namespace HeartbeatTask

variable {jobId : RunId} {claimToken : String} {lastRead : Option ProgressSnapshot}

theorem reporting_still (asked : BeatRequest) : (reporting jobId claimToken).Still asked :=
  fun _ _ hdrift => hdrift.elim

/-- Requests other than heartbeats are free. -/
theorem ask_reports {α : Type} {Q : α → Option ProgressSnapshot → Prop} {asked : BeatRequest}
    {next : asked.Answer → Beat α}
    (hguard : (reporting jobId claimToken).guard lastRead asked)
    (hnext : ∀ answer after, Safe (reporting jobId claimToken) Q (next answer) after) :
    Safe (reporting jobId claimToken) Q (.request asked next) lastRead :=
  Safe.request_still (reporting_still asked) trivial hguard fun answer after _ _ =>
    hnext answer after

theorem pure_reports {α : Type} (a : α) :
    Safe (reporting jobId claimToken) (fun _ _ => True) (.pure a) lastRead :=
  Safe.pure trivial trivial

theorem acknowledge_reports (tally : Tally) (snapshot : ProgressSnapshot) :
    Safe (reporting jobId claimToken) (fun _ _ => True) (acknowledge tally snapshot) lastRead := by
  unfold acknowledge
  dsimp only
  split
  · exact ask_reports trivial fun _ _ => pure_reports _
  · exact pure_reports _

theorem beat_reports (tally : Tally) :
    Safe (reporting jobId claimToken) (fun _ _ => True) (beat jobId claimToken tally) lastRead := by
  refine ask_reports trivial fun _ _ => ask_reports trivial fun stopped _ => ?_
  cases stopped with
  | true => exact pure_reports _
  | false =>
      refine Safe.request_still (reporting_still _) trivial trivial ?_
      rintro snapshot _ rfl _
      refine ask_reports ⟨snapshot, rfl, rfl⟩ fun outcome _ => ?_
      rcases outcome with error | outcome
      · exact pure_reports _
      · cases outcome with
        | proceed =>
            exact (acknowledge_reports tally snapshot).bind fun _ _ _ _ => pure_reports _
        | cancelRequested => exact ask_reports trivial fun _ _ => pure_reports _
        | claimLost => exact ask_reports trivial fun _ _ => pure_reports _

theorem start_reports :
    Safe (reporting jobId claimToken) (fun _ _ => True) (start jobId claimToken) lastRead := by
  refine Safe.loop (fun _ _ => True) trivial trivial fun tally w _ _ => ?_
  refine (beat_reports tally).mono fun ended _ _ _ => ?_
  cases ended with
  | inl tally => trivial
  | inr _ => exact pure_reports _

end HeartbeatTask

/-! ## The supervised world -/

/-- A spawned task, and what it still has to do. -/
structure HeartbeatTask where
  jobId : RunId
  claimToken : String
  rest : Beat Unit

def HeartbeatTask.spawn (jobId : RunId) (claimToken : String) : HeartbeatTask :=
  ⟨jobId, claimToken, start jobId claimToken⟩

/-- A snapshot that the task has read, and whether a mutating call had been made by then since the job
got its progress. -/
structure Reading where
  snapshot : ProgressSnapshot
  touched : Bool

def WorkerRequest.touches : WorkerRequest → Bool
  | runner _ (.pm call) => call.mutates.isSome
  | _ => false

/-- The task that is there after the worker's request. -/
def HeartbeatTask.next (task : Option HeartbeatTask) : WorkerRequest → Option HeartbeatTask
  | .startHeartbeat jobId claimToken => some (.spawn jobId claimToken)
  | .stopHeartbeat => none
  | _ => task

/-- The world with the rest of the job's progress. The last two fields only observe: whether a mutating
call was made since the job got its progress, and what the task has read last. -/
structure SupervisedWorld where
  world : World
  snapshot : ProgressSnapshot := ({} : WorkerProgress).snapshot
  touched : Bool := false
  lastRead : Option Reading := none

namespace SupervisedWorld

/-- The job's progress. Its two flags are cells of the process. -/
def progress (s : SupervisedWorld) : WorkerProgress :=
  ⟨s.snapshot, s.world.process.cancelRequested, s.world.process.claimLost⟩

def withProgress (s : SupervisedWorld) (progress : WorkerProgress) : SupervisedWorld :=
  { s with
    snapshot := progress.snapshot
    world := { s.world with process := { s.world.process with
      cancelRequested := progress.cancelRequested
      claimLost := progress.claimLost } } }

/-- What the worker's request does besides what it does to the world. -/
def note (s : SupervisedWorld) : WorkerRequest → SupervisedWorld
  | .newProgress => { s with snapshot := ({} : WorkerProgress).snapshot, touched := false }
  | .runner _ (.publish phase cleanupRequired) =>
      { s with snapshot := (s.progress.publish phase cleanupRequired).snapshot }
  | .runner _ (.pm call) => { s with touched := s.touched || call.mutates.isSome }
  | .startHeartbeat _ _ => { s with lastRead := none }
  | _ => s

/-- How the task is answered while the worker waits for the answer to `request`. It can find itself
stopped only while the worker stops it. -/
def Serves (s : SupervisedWorld) (request : WorkerRequest) :
    (asked : BeatRequest) → asked.Answer → SupervisedWorld → Prop
  | .stopped, answer, after => (answer = true → request = .stopHeartbeat) ∧ after = s
  | .snapshot, answer, after => answer = s.progress.snapshot ∧
      -- a call that is still to be answered may have touched the target already
      after = { s with lastRead := some ⟨s.progress.snapshot, s.touched || request.touches⟩ }
  | .requestCancellation, _, after => after = s.withProgress s.progress.requestCancellation
  | .markClaimLost, _, after => after = s.withProgress s.progress.markClaimLost
  | _, _, after => after = s

end SupervisedWorld

/-- The surroundings of the task. -/
def beating (request : WorkerRequest) :
    Semantics BeatRequest BeatRequest.Answer SupervisedWorld where
  answer := fun s asked answer after => s.Serves request asked answer after
  drift := fun _ _ _ => False

/-- The surroundings of the worker, but for its task: what else moves leaves the progress alone. -/
def supervision (avoided : Defect → Prop) :
    Semantics WorkerRequest WorkerRequest.Answer SupervisedWorld where
  answer := fun s request answer after =>
    (surroundings avoided).answer s.world request answer after.world ∧
      after = { s.note request with world := after.world }
  drift := fun request s after =>
    (surroundings avoided).drift request s.world after.world ∧
      after = { s with world := after.world } ∧ after.progress = s.progress

structure Supervised where
  worker : Worker Unit
  task : Option HeartbeatTask
  scene : SupervisedWorld

namespace Supervised

def start (ext : Externals) (deployment : Deployment) : Supervised :=
  ⟨Worker.run ext deployment, none, { world := .initial }⟩

/-- One step of the system: of the worker, of its task while the worker waits, of an operator, or of
another task. A task dies with its process. -/
inductive Step (ext : Externals) (avoided : Defect → Prop) : Supervised → Supervised → Prop
  | answer {request : WorkerRequest} {next : request.Answer → Worker Unit}
    {task : Option HeartbeatTask} {scene after : SupervisedWorld} {answer : request.Answer} :
      (supervision avoided).answer scene request answer after →
      Step ext avoided ⟨.request request next, task, scene⟩
        ⟨next answer, HeartbeatTask.next task request, after⟩
  | unroll {σ β : Type} {body : σ → Worker (σ ⊕ β)} {state : σ} {next : β → Worker Unit}
    {task : Option HeartbeatTask} {scene : SupervisedWorld} :
      Step ext avoided ⟨.loop body state next, task, scene⟩
        ⟨(body state).bind (.afterRound body next), task, scene⟩
  | drift {request : WorkerRequest} {next : request.Answer → Worker Unit}
    {task : Option HeartbeatTask} {scene after : SupervisedWorld} :
      (supervision avoided).drift request scene after →
      Step ext avoided ⟨.request request next, task, scene⟩ ⟨.request request next, task, after⟩
  | beat {request : WorkerRequest} {next : request.Answer → Worker Unit} {jobId : RunId}
    {claimToken : String} {rest rest' : Beat Unit} {scene after : SupervisedWorld} :
      Interaction.Step (beating request) (rest, scene) (rest', after) →
      Step ext avoided ⟨.request request next, some ⟨jobId, claimToken, rest⟩, scene⟩
        ⟨.request request next, some ⟨jobId, claimToken, rest'⟩, after⟩
  | operate {task : Option HeartbeatTask} {scene : SupervisedWorld} {world : World} :
      scene.world.Operates world →
      Step ext avoided ⟨.pure (), task, scene⟩ ⟨.pure (), task, { scene with world }⟩
  | restart {before : Supervised} {deployment : Deployment} :
      Step ext avoided before
        ⟨Worker.run ext deployment, none, { world := before.scene.world.restarted }⟩

def Runs (ext : Externals) (avoided : Defect → Prop) : Supervised → Supervised → Prop :=
  ReflTransGen (Step ext avoided)

def Reachable (ext : Externals) (avoided : Defect → Prop) (s : Supervised) : Prop :=
  ∃ deployment, Runs ext avoided (start ext deployment) s

/-- Without its task, and without what the task alone has to do with. -/
def machine (s : Supervised) : Machine := (s.worker, s.scene.world)

/-- The task waits for the coordinator's answer to a heartbeat. -/
def Sends (s : Supervised) (sent : Heartbeat) : Prop :=
  ∃ task next, s.task = some task ∧ task.rest = .request (.heartbeat sent) next

end Supervised

/-! ## The task is one of the tasks that the machine allows for -/

namespace SupervisedWorld

variable {s after : SupervisedWorld} {avoided : Defect → Prop} {request : WorkerRequest}

/-- The job starts with new progress, though its parts are kept apart. -/
theorem progress_of_newProgress {answer : Unit}
    (h : (supervision avoided).answer s .newProgress answer after) : after.progress = {} := by
  obtain ⟨⟨_, hprocess⟩, hafter⟩ := h
  rw [hafter, progress, hprocess]
  rfl

/-- The controller is told what the progress says. -/
theorem control_of_progress {run : RunId} {answer : RunControl}
    (h : (supervision avoided).answer s (.runner run .control) answer after) :
    answer = s.progress.control := h.1.2.1

theorem heartbeat_of_drift {world world' : World}
    (h : (surroundings avoided).drift request world world') :
    world'.process.heartbeat = world.process.heartbeat := by
  rcases h with ⟨_, hmoves⟩ | ⟨_, hoperates⟩
  · generalize world'.process = process at hmoves
    cases hmoves <;> rfl
  · cases hoperates <;> rfl

/-- The task's requests reach the process as its moves. -/
theorem Serves.moves {asked : BeatRequest} {answer : asked.Answer}
    (h : s.Serves request asked answer after) (hbeats : s.world.process.heartbeat = true) :
    after.world = s.world ∨ (surroundings avoided).drift request s.world after.world := by
  cases asked with
  | stopped => exact Or.inl (congrArg world h.2)
  | snapshot =>
      obtain ⟨_, rfl⟩ := h
      exact Or.inl rfl
  | requestCancellation =>
      cases h
      exact Or.inr (Or.inl ⟨rfl, .cancellation hbeats⟩)
  | markClaimLost =>
      cases h
      exact Or.inr (Or.inl ⟨rfl, .lostClaim hbeats⟩)
  | _ => exact Or.inl (congrArg world h)

end SupervisedWorld

/-- The process knows whether there is a task. -/
theorem HeartbeatTask.heartbeat_next {task : Option HeartbeatTask} {process after : Process}
    {request : WorkerRequest} {answer : request.Answer}
    (hanswer : process.Answers request answer after) (hbeats : process.heartbeat = task.isSome) :
    after.heartbeat = (HeartbeatTask.next task request).isSome := by
  have hcells : ¬ request.Beats → after.heartbeat = process.heartbeat := hanswer.cells.2.2.1
  cases request with
  | startHeartbeat jobId claimToken =>
      rw [hanswer]
      rfl
  | stopHeartbeat =>
      rw [hanswer]
      rfl
  | _ => exact (hcells id).trans hbeats

namespace Supervised

variable {ext : Externals} {avoided : Defect → Prop} {s s' : Supervised}

def Beating (s : Supervised) : Prop := s.scene.world.process.heartbeat = s.task.isSome

theorem Step.machine (h : Step ext avoided s s') (hbeats : s.Beating) :
    Machine.Runs ext avoided s.machine s'.machine ∧ s'.Beating := by
  cases h with
  | answer hanswer =>
      exact ⟨.single (.work (.answer hanswer.1)), HeartbeatTask.heartbeat_next hanswer.1.2 hbeats⟩
  | unroll => exact ⟨.single (.work .unroll), hbeats⟩
  | drift hdrift =>
      exact ⟨.single (.work (.drift hdrift.1)),
        (SupervisedWorld.heartbeat_of_drift hdrift.1).trans hbeats⟩
  | @beat request next jobId claimToken rest rest' scene after hstep =>
      cases hstep with
      | answer hserved =>
          rcases SupervisedWorld.Serves.moves hserved hbeats with hsame | hdrift
          · rw [Supervised.machine, Supervised.machine, Beating, hsame]
            exact ⟨.refl, hbeats⟩
          · exact ⟨.single (.work (.drift hdrift)),
              (SupervisedWorld.heartbeat_of_drift hdrift).trans hbeats⟩
      | drift hdrift => exact hdrift.elim
      | unroll => exact ⟨.refl, hbeats⟩
  | operate hoperates =>
      refine ⟨.single (.operate hoperates), ?_⟩
      cases hoperates <;> exact hbeats
  | restart => exact ⟨.single .restart, rfl⟩

theorem Reachable.runs_machine (h : Reachable ext avoided s) :
    Machine.Reachable ext avoided s.machine ∧ s.Beating := by
  obtain ⟨deployment, hruns⟩ := h
  suffices key : Machine.Runs ext avoided (.start ext deployment) s.machine ∧ s.Beating from
    ⟨⟨deployment, key.1⟩, key.2⟩
  induction hruns with
  | refl => exact ⟨.refl, rfl⟩
  | tail _ hstep ih =>
      obtain ⟨hrun, hbeats⟩ := hstep.machine ih.2
      exact ⟨ih.1.trans hrun, hbeats⟩

end Supervised

/-! ## What the task reports is a warning -/

namespace SupervisedWorld

variable {s after : SupervisedWorld} {request : WorkerRequest}

/-- What can be seen of the job from the outside. -/
def notice (s : SupervisedWorld) : Notice := ⟨s.touched, s.snapshot.cleanupRequired⟩

theorem notice_note (s : SupervisedWorld) (request : WorkerRequest) (world : World) :
    notice { s.note request with world } = s.notice.observe request := by
  cases request with
  | runner run asked => cases asked <;> rfl
  | _ => rfl

/-- What was read of a touched target said that it has to be cleaned up. -/
def ReadWarnings (s : SupervisedWorld) : Prop :=
  ∀ reading, s.lastRead = some reading → reading.touched = true →
    reading.snapshot.cleanupRequired = true

theorem ReadWarnings.note (h : s.ReadWarnings) (request : WorkerRequest) (world : World) :
    ReadWarnings { s.note request with world } := by
  cases request with
  | runner run asked => cases asked <;> exact h
  | startHeartbeat jobId claimToken => exact nofun
  | _ => exact h

/-- The task's requests leave the notice alone, and under a sound one they read warnings. -/
theorem Serves.warnings {asked : BeatRequest} {answer : asked.Answer}
    (h : s.Serves request asked answer after) (hsound : s.notice.Sound)
    (hadmits : s.notice.Admits request) (hread : s.ReadWarnings) :
    after.notice = s.notice ∧ after.ReadWarnings := by
  cases asked with
  | stopped =>
      obtain ⟨_, rfl⟩ := h
      exact ⟨rfl, hread⟩
  | snapshot =>
      obtain ⟨_, rfl⟩ := h
      refine ⟨rfl, fun reading hreading htouched => ?_⟩
      cases hreading
      rcases Bool.or_eq_true_iff.mp htouched with hearlier | htouches
      · exact hsound hearlier
      · unfold WorkerRequest.touches at htouches
        split at htouches
        · exact hadmits htouches
        · cases htouches
  | _ =>
      cases h
      exact ⟨rfl, hread⟩

/-- To the task, the world is what it has read last. -/
theorem Serves.reported {asked : BeatRequest} {answer : asked.Answer} {jobId : RunId}
    {claimToken : String} (h : s.Serves request asked answer after) :
    (reporting jobId claimToken).answer (s.lastRead.map Reading.snapshot) asked answer
      (after.lastRead.map Reading.snapshot) := by
  cases asked with
  | stopped =>
      obtain ⟨_, rfl⟩ := h
      rfl
  | snapshot =>
      obtain ⟨rfl, rfl⟩ := h
      rfl
  | _ =>
      cases h
      rfl

end SupervisedWorld

namespace Supervised

variable {ext : Externals} {avoided : Defect → Prop} {s s' : Supervised}

/-- The worker touches only what it has announced, and its task reports what it reads. -/
structure Honest (s : Supervised) : Prop where
  warns : Safe announcing (fun _ _ => True) s.worker s.scene.notice
  read : s.scene.ReadWarnings
  reports : ∀ task, s.task = some task →
    Safe (reporting task.jobId task.claimToken) (fun _ _ => True) task.rest
      (s.scene.lastRead.map Reading.snapshot)

theorem honest_fresh (ext : Externals) (deployment : Deployment) (world : World) :
    Honest ⟨Worker.run ext deployment, none, { world }⟩ :=
  ⟨Worker.run_warns, nofun, nofun⟩

theorem Step.honest (h : Step ext avoided s s') (hhonest : s.Honest) : s'.Honest := by
  obtain ⟨hwarns, hread, hreports⟩ := hhonest
  cases h with
  | @answer request next task scene after answer hanswer =>
      obtain ⟨_, hafter⟩ := hanswer
      have hnotice : after.notice = scene.notice.observe request := by
        rw [hafter]
        exact scene.notice_note request after.world
      refine ⟨hwarns.reaches (.single (.answer hnotice)), ?_, ?_⟩
      · rw [hafter]
        exact SupervisedWorld.ReadWarnings.note hread request after.world
      · intro started htask
        rw [hafter]
        cases request with
        | startHeartbeat jobId claimToken =>
            cases htask
            exact HeartbeatTask.start_reports
        | stopHeartbeat => cases htask
        | runner run asked => cases asked <;> exact hreports started htask
        | _ => exact hreports started htask
  | unroll => exact ⟨hwarns.reaches (.single .unroll), hread, hreports⟩
  | drift hdrift =>
      obtain ⟨_, hafter, _⟩ := hdrift
      rw [hafter]
      exact ⟨hwarns, hread, hreports⟩
  | @beat request next jobId claimToken rest rest' scene after hstep =>
      have hrest := hreports _ rfl
      cases hstep with
      | answer hserved =>
          obtain ⟨hsound, hguard, _⟩ := hwarns.obeys
          obtain ⟨hnotice, hread⟩ :=
            SupervisedWorld.Serves.warnings hserved hsound (hguard request next rfl) hread
          refine ⟨?_, hread, fun task htask => ?_⟩
          · show Safe announcing _ _ after.notice
            rw [hnotice]
            exact hwarns
          · cases htask
            exact hrest.reaches (.single (.answer (SupervisedWorld.Serves.reported hserved)))
      | drift hdrift => exact hdrift.elim
      | unroll =>
          refine ⟨hwarns, hread, fun task htask => ?_⟩
          cases htask
          exact hrest.reaches (.single .unroll)
  | operate _ => exact ⟨hwarns, hread, hreports⟩
  | restart => exact honest_fresh ext _ _

theorem Reachable.honest (h : Reachable ext avoided s) : s.Honest := by
  obtain ⟨deployment, hruns⟩ := h
  induction hruns with
  | refl => exact honest_fresh ext deployment .initial
  | tail _ hstep ih => exact hstep.honest ih

end Supervised

end PackageHarness
