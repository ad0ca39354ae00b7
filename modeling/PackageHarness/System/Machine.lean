/-
# PackageHarness.System.Machine — the running process and its surroundings, with crashes.

A `World` is the ledger together with the volatile cells of the process. A machine is the worker's
remaining program and its world. It moves when the worker is answered, when something else in the
process or an operator acts, and when the process dies and a new one starts, possibly with another
configuration. A crash is possible in every state, so also between the effect of a request and the
moment the worker would have learnt of it.
-/
import PackageHarness.System.Defect

namespace PackageHarness

open Interaction Relation

/-- The in-memory cells that the worker shares with other tasks. -/
structure Process where
  readiness : Option String := some "worker is reconciling local state"
  accepting : Bool := true
  drain : WorkerDrainState := .accepting
  /-- `Notify` stores at most one permit. -/
  recoveryPermit : Bool := false
  cancelRequested : Bool := false
  claimLost : Bool := false
  heartbeat : Bool := false

namespace Process

def control (process : Process) : RunControl :=
  if process.claimLost then .claimLost
  else if process.cancelRequested then .cancelRequested
  else .proceed

def Answers (process : Process) : (request : WorkerRequest) → request.Answer → Process → Prop
  | .runner _ .control, answer, after => answer = process.control ∧ after = process
  | .newProgress, _, after =>
      after = { process with cancelRequested := false, claimLost := false }
  | .startHeartbeat _ _, _, after => after = { process with heartbeat := true }
  | .stopHeartbeat, _, after => after = { process with heartbeat := false }
  | .claimLost, answer, after => answer = process.claimLost ∧ after = process
  | .setNotReady reason, _, after => after = { process with readiness := some reason }
  | .clearReadiness, _, after => after = { process with readiness := none }
  | .accepting, answer, after => answer = process.accepting ∧ after = process
  | .drainState, answer, after => answer = process.drain ∧ after = process
  -- `watch::Sender::send_if_modified`: only a drain that is still wanted ends
  | .markDrained, _, after =>
      after = { process with drain :=
        if process.drain = .draining then .drained else process.drain }
  -- `Notify::notified` returns once there is a permit, and takes it
  | .recoveryWait, _, after =>
      process.recoveryPermit = true ∧ after = { process with recoveryPermit := false }
  | .recoveryResume, _, after => after = { process with recoveryPermit := true }
  | _, _, after => after = process

/-- What other tasks of the process do to the cells. -/
inductive Moves : Process → Process → Prop
  | cancellation {process : Process} : process.heartbeat = true →
      Moves process { process with cancelRequested := true }
  | lostClaim {process : Process} : process.heartbeat = true →
      Moves process { process with claimLost := true }
  | drainRequested {process : Process} :
      Moves process { process with drain :=
        if process.drain = .accepting then .draining else process.drain }
  | drainResumed {process : Process} : Moves process { process with drain := .accepting }
  | permit {process : Process} : Moves process { process with recoveryPermit := true }
  | shutdown {process : Process} : Moves process { process with accepting := false }

end Process

structure World where
  ledger : Ledger
  process : Process

namespace World

def initial : World := ⟨.empty, {}⟩

/-- A new process on the same ledger. -/
def restarted (world : World) : World := { world with process := {} }

/-- An operator's action as one step, including the permit that wakes the worker. -/
inductive Operates (world : World) : World → Prop
  | accepted {action : RecoveryAction} {run : RunId} {after : Ledger} :
      world.ledger.Operates action run (.ok ()) after →
      Operates world ⟨after, { world.process with
        recoveryPermit := world.process.recoveryPermit || action.resumesWorker }⟩
  | failed {action : RecoveryAction} {run : RunId} {error : OperatorRecoveryError}
      {after : Ledger} :
      world.ledger.Operates action run (.error error) after →
      Operates world { world with ledger := after }

end World

/-- The surroundings without operators, in the runs whose steps show none of the `avoided` defects:
requests are answered, and other tasks of the process move its cells. -/
def unattended (avoided : Defect → Prop) :
    Semantics WorkerRequest WorkerRequest.Answer World where
  answer := fun world request answer after =>
    (world.ledger.Answers request answer after.ledger ∧
      ∀ defect, avoided defect → ¬ defect.ShownBy request answer after.ledger) ∧
    world.process.Answers request answer after.process
  drift := fun _ world after => after.ledger = world.ledger ∧ world.process.Moves after.process

/-- The surroundings of the worker. Recovery actions happen, as one step, while the worker holds no
copy of a record. -/
def surroundings (avoided : Defect → Prop) :
    Semantics WorkerRequest WorkerRequest.Answer World where
  answer := (unattended avoided).answer
  drift := fun request world after =>
    (unattended avoided).drift request world after ∨
      request.holdsCopy = false ∧ world.Operates after

abbrev Machine := Worker Unit × World

namespace Machine

def start (ext : Externals) (deployment : Deployment) : Machine :=
  (Worker.run ext deployment, .initial)

/-- One step of the system. -/
inductive Step (ext : Externals) (avoided : Defect → Prop) : Machine → Machine → Prop
  | work {before after : Machine} :
      Interaction.Step (surroundings avoided) before after → Step ext avoided before after
  | operate {world after : World} : world.Operates after →
      Step ext avoided (.pure (), world) (.pure (), after)
  | restart {program : Worker Unit} {world : World} {deployment : Deployment} :
      Step ext avoided (program, world) (Worker.run ext deployment, world.restarted)

/-- Any number of steps. -/
def Runs (ext : Externals) (avoided : Defect → Prop) : Machine → Machine → Prop :=
  ReflTransGen (Step ext avoided)

/-- What a process started on an empty store, and its successors, can reach. -/
def Reachable (ext : Externals) (avoided : Defect → Prop) (machine : Machine) : Prop :=
  ∃ deployment, Runs ext avoided (start ext deployment) machine

/-- The worker waits for the answer to `request`. -/
def Requests (machine : Machine) (request : WorkerRequest) : Prop :=
  ∃ next, machine.1 = .request request next

/-- The run has the durable record `record`. -/
def Durable (machine : Machine) (run : RunId) (record : RunRecord) : Prop :=
  machine.2.ledger.store run = some record

end Machine

/-- Every run is admitted. -/
def noDefect : Defect → Prop := fun _ => False

end PackageHarness
