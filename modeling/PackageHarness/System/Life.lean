/-
# PackageHarness.System.Life — the system with everything the worker has said.

A `Life` is a machine together with the conversation of its process and those of the processes
before it, with the request that was open when each of them died. Who else moves the world is a
parameter: the `surroundings` of a machine act between the worker's steps, other semantics at any
time.
-/
import PackageHarness.Conduct.Places
import PackageHarness.System.Scenario

namespace PackageHarness

open Interaction Relation

/-- Which cells an answer can change. -/
theorem Process.Answers.cells {process after : Process} {request : WorkerRequest}
    {answer : request.Answer} (h : process.Answers request answer after) :
    after.accepting = process.accepting ∧
      (request ≠ .markDrained → after.drain = process.drain) ∧
      (¬ request.Beats → after.heartbeat = process.heartbeat) ∧
      (request ≠ .recoveryWait → process.recoveryPermit = true → after.recoveryPermit = true) := by
  cases request with
  | runner run request =>
      cases request with
      | control =>
          obtain ⟨_, rfl⟩ := h
          exact ⟨rfl, fun _ => rfl, fun _ => rfl, fun _ h => h⟩
      | _ =>
          cases h
          exact ⟨rfl, fun _ => rfl, fun _ => rfl, fun _ h => h⟩
  | claimLost =>
      obtain ⟨_, rfl⟩ := h
      exact ⟨rfl, fun _ => rfl, fun _ => rfl, fun _ h => h⟩
  | accepting =>
      obtain ⟨_, rfl⟩ := h
      exact ⟨rfl, fun _ => rfl, fun _ => rfl, fun _ h => h⟩
  | drainState =>
      obtain ⟨_, rfl⟩ := h
      exact ⟨rfl, fun _ => rfl, fun _ => rfl, fun _ h => h⟩
  | recoveryWait =>
      obtain ⟨_, rfl⟩ := h
      exact ⟨rfl, fun _ => rfl, fun _ => rfl, fun hne => absurd rfl hne⟩
  | startHeartbeat run claimToken =>
      cases h
      exact ⟨rfl, fun _ => rfl, fun hbeats => absurd trivial hbeats, fun _ h => h⟩
  | stopHeartbeat =>
      cases h
      exact ⟨rfl, fun _ => rfl, fun hbeats => absurd trivial hbeats, fun _ h => h⟩
  | markDrained =>
      cases h
      exact ⟨rfl, fun hne => absurd rfl hne, fun _ => rfl, fun _ h => h⟩
  | recoveryResume =>
      cases h
      exact ⟨rfl, fun _ => rfl, fun _ => rfl, fun _ _ => rfl⟩
  | _ =>
      cases h
      exact ⟨rfl, fun _ => rfl, fun _ => rfl, fun _ h => h⟩

/-- Other tasks of the process have moved its cells. -/
def World.Stirs (world after : World) : Prop :=
  after.ledger = world.ledger ∧ world.process.Moves after.process

/-- A process, from its start to the moment at which it is looked at. -/
structure Episode where
  deployment : Deployment
  chronicle : Chronicle
  pending : Option WorkerRequest

structure Life where
  past : List Episode
  deployment : Deployment
  chronicle : Chronicle
  worker : Worker Unit
  world : World

/-- What moves the world besides the answers to the worker. -/
structure Company where
  surroundings : Semantics WorkerRequest WorkerRequest.Answer World
  outside : Worker Unit → World → World → Prop

namespace Life

def start (ext : Externals) (deployment : Deployment) : Life :=
  ⟨[], deployment, [], Worker.run ext deployment, .initial⟩

def machine (life : Life) : Machine := (life.worker, life.world)

def episode (life : Life) : Episode := ⟨life.deployment, life.chronicle, life.worker.pending⟩

/-- The process that runs, and those before it. -/
def episodes (life : Life) : List Episode := life.episode :: life.past

/-- A new process with a conversation of its own. -/
def restarted (ext : Externals) (deployment : Deployment) (life : Life) : Life where
  past := life.episodes
  deployment := deployment
  chronicle := []
  worker := Worker.run ext deployment
  world := life.world.restarted

inductive Step (ext : Externals) (company : Company) : Life → Life → Prop
  | answer {past : List Episode} {deployment : Deployment} {chronicle : Chronicle}
      {request : WorkerRequest} {next : request.Answer → Worker Unit} {world : World}
      {answer : request.Answer} {world' : World} :
      company.surroundings.answer world request answer world' →
      Step ext company ⟨past, deployment, chronicle, .request request next, world⟩
        ⟨past, deployment, ⟨request, answer⟩ :: chronicle, next answer, world'⟩
  | drift {past : List Episode} {deployment : Deployment} {chronicle : Chronicle}
      {request : WorkerRequest} {next : request.Answer → Worker Unit} {world world' : World} :
      company.surroundings.drift request world world' →
      Step ext company ⟨past, deployment, chronicle, .request request next, world⟩
        ⟨past, deployment, chronicle, .request request next, world'⟩
  | unroll {past : List Episode} {deployment : Deployment} {chronicle : Chronicle} {σ β : Type}
      {body : σ → Worker (σ ⊕ β)} {s : σ} {next : β → Worker Unit} {world : World} :
      Step ext company ⟨past, deployment, chronicle, .loop body s next, world⟩
        ⟨past, deployment, chronicle, (body s).bind (.afterRound body next), world⟩
  | outside {life : Life} {world : World} : company.outside life.worker life.world world →
      Step ext company life { life with world := world }
  | restart {life : Life} {deployment : Deployment} :
      Step ext company life (life.restarted ext deployment)

/-- Any number of steps. -/
def Runs (ext : Externals) (company : Company) : Life → Life → Prop :=
  ReflTransGen (Step ext company)

def Reachable (ext : Externals) (company : Company) (life : Life) : Prop :=
  ∃ deployment, Runs ext company (start ext deployment) life

/-- The worker waits for the answer to `request`. -/
def Requests (life : Life) (request : WorkerRequest) : Prop :=
  ∃ next, life.worker = .request request next

end Life

/-- The process has said this, and waits there. -/
def Episode.Spoken (ext : Externals) (episode : Episode) : Prop :=
  ∃ worker, Reaches recording (Worker.run ext episode.deployment, []) (worker, episode.chronicle) ∧
    episode.pending = worker.pending

namespace Life

variable {ext : Externals} {company : Company} {life after : Life}

/-- Steps of the worker in its surroundings are steps of its life. -/
theorem Step.of_machine {c c' : Worker Unit × World × Chronicle}
    (h : Interaction.Step (chronicled company.surroundings) c c') (past : List Episode)
    (deployment : Deployment) :
    Step ext company ⟨past, deployment, c.2.2, c.1, c.2.1⟩
      ⟨past, deployment, c'.2.2, c'.1, c'.2.1⟩ := by
  cases h with
  | @answer e next w r w' hanswer =>
      obtain ⟨world', chronicle'⟩ := w'
      obtain ⟨hanswer, rfl⟩ := hanswer
      exact .answer hanswer
  | @drift e next w w' hdrift =>
      obtain ⟨world', chronicle'⟩ := w'
      obtain ⟨hdrift, rfl⟩ := hdrift
      exact .drift hdrift
  | unroll => exact .unroll

/-- A process says what its program makes it say. -/
theorem Step.spoken (h : Step ext company life after)
    (hlife : Reaches recording (Worker.run ext life.deployment, []) (life.worker, life.chronicle)) :
    Reaches recording (Worker.run ext after.deployment, []) (after.worker, after.chronicle) := by
  cases h with
  | answer hanswer => exact hlife.tail (.answer rfl)
  | drift hdrift => exact hlife
  | unroll => exact hlife.tail .unroll
  | outside => exact hlife
  | restart => exact .refl

theorem Reachable.spoken (h : Reachable ext company life) :
    Reaches recording (Worker.run ext life.deployment, []) (life.worker, life.chronicle) := by
  obtain ⟨deployment, hruns⟩ := h
  induction hruns with
  | refl => exact .refl
  | tail _ hstep ih => exact hstep.spoken ih

/-- Every request fits its place. -/
theorem Reachable.fits (h : Reachable ext company life) {request : WorkerRequest}
    (hrequest : life.Requests request) : life.chronicle.Fits request := by
  obtain ⟨next, hnext⟩ := hrequest
  exact (Worker.run_placed _ _ h.spoken).2.1 request next hnext

/-- The worker ends only where it may. -/
theorem Reachable.final (h : Reachable ext company life) (hended : life.worker = .pure ()) :
    life.chronicle.place.Final := by
  obtain ⟨place, hfinal, hstands⟩ := (Worker.run_placed _ _ h.spoken).2.2 () hended
  rw [hstands.1]
  exact hfinal

/-! ## Replayed lives -/

/-- The worker runs against the script until that stops. -/
def follow (script : Script WorkerRequest WorkerRequest.Answer World) (life : Life) : Life :=
  let c := Program.replay script.chronicled 2000 (life.worker, life.world, life.chronicle)
  ⟨life.past, life.deployment, c.2.2, c.1, c.2.1⟩

/-- The worker runs against the scenario until it stops. -/
def replay (scenario : Scenario) (life : Life) : Life := life.follow (World.reply scenario)

theorem runs_follow {script : Script WorkerRequest WorkerRequest.Answer World}
    (hadmitted : script.Admitted company.surroundings) :
    Runs ext company life (life.follow script) := by
  obtain ⟨past, deployment, chronicle, worker, world⟩ := life
  have hreaches := Program.reaches_replay hadmitted.chronicled 2000 (worker, world, chronicle)
  let living : Worker Unit × World × Chronicle → Life := fun c =>
    ⟨past, deployment, c.2.2, c.1, c.2.1⟩
  have hstep : ∀ c c', Interaction.Step (chronicled company.surroundings) c c' →
      Step ext company (living c) (living c') := fun _ _ h => Step.of_machine h past deployment
  exact hreaches.lift living hstep

theorem runs_replay {scenario : Scenario}
    (hadmitted : (World.reply scenario).Admitted company.surroundings) :
    Runs ext company life (life.replay scenario) := runs_follow hadmitted

theorem reachable_start {deployment : Deployment} : Reachable ext company (start ext deployment) :=
  ⟨deployment, .refl⟩

theorem Reachable.runs (h : Reachable ext company life) (hruns : Runs ext company life after) :
    Reachable ext company after := by
  obtain ⟨deployment, hstart⟩ := h
  exact ⟨deployment, hstart.trans hruns⟩

end Life

end PackageHarness
