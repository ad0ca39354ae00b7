/-
# PackageHarness.System.Service — the process as `main` sets it up.

Next to the worker run the handlers of the API, which drain and resume it, and one shutdown signal,
whose three effects come one after the other. The drain state is a watched value: a change of it
wakes whoever waits for one, and `changed_from` waits only if it finds the value that it was called
with. A worker that waits there, or for the recovery permit, does not look at the accepting flag.
-/
import PackageHarness.System.Life

namespace PackageHarness

open Interaction Relation

/-- How far the shutdown signal has got. -/
inductive Signal
  | awaited
  /-- The drain is requested. -/
  | draining
  /-- The accepting flag is cleared. -/
  | refusing
  /-- The recovery permit is given. -/
  | handled
  deriving DecidableEq

structure Service where
  world : World
  /-- How often the drain state was changed or sent. -/
  version : Nat := 0
  /-- The version at which a waiting `changed_from` has subscribed. -/
  seen : Option Nat := none
  signal : Signal := .awaited

namespace Service

def drain (service : Service) : WorkerDrainState := service.world.process.drain

def accepting (service : Service) : Bool := service.world.process.accepting

def withProcess (service : Service) (process : Process) : Service :=
  { service with world := { service.world with process := process } }

/-- The drain state was sent. -/
def sent (service : Service) (drain : WorkerDrainState) : Service :=
  { service.withProcess { service.world.process with drain := drain } with
    version := service.version + 1 }

def requestDrain (service : Service) : Service :=
  if service.drain = .accepting then service.sent .draining else service

/-- Resuming sends the value even if it is the same. -/
def resumeDrain (service : Service) : Service := service.sent .accepting

def markDrained (service : Service) : Service :=
  if service.drain = .draining then service.sent .drained else service

-- the effects of the signal

def signalDrains (service : Service) : Service := { service.requestDrain with signal := .draining }

def signalRefuses (service : Service) : Service :=
  { service.withProcess { service.world.process with accepting := false } with
    signal := .refusing }

def signalResumes (service : Service) : Service :=
  { service.withProcess { service.world.process with recoveryPermit := true } with
    signal := .handled }

/-- `changed_from` returns: at once where the value is another one, otherwise after a change. -/
def Changed (service : Service) (observed : WorkerDrainState) : Prop :=
  match service.seen with
  | none => service.drain ≠ observed
  | some seen => service.version ≠ seen

def Answers (service : Service) : (request : WorkerRequest) → request.Answer → Service → Prop
  | .drainChanged observed, _, after =>
      service.Changed observed ∧ after = { service with seen := none }
  | .markDrained, _, after => after = service.markDrained
  | request, answer, after =>
      ∃ world, (unattended noDefect).answer service.world request answer world ∧
        after = { service with world := world }

/-- What the other tasks do. -/
inductive Moves (service : Service) : Service → Prop
  | stirs {process : Process} : service.world.process.Moves process →
      process.drain = service.drain → process.accepting = service.accepting →
      Moves service (service.withProcess process)
  | operates {world : World} : service.world.Operates world →
      Moves service { service with world := world }
  | drainRequested : Moves service service.requestDrain
  | drainResumed : Moves service service.resumeDrain
  | signalDrains : service.signal = .awaited → Moves service service.signalDrains
  | signalRefuses : service.signal = .draining → Moves service service.signalRefuses
  | signalResumes : service.signal = .refusing → Moves service service.signalResumes

end Service

/-- The worker in its service. -/
structure Harness where
  worker : Worker Unit
  chronicle : Chronicle
  service : Service

namespace Harness

def start (ext : Externals) (deployment : Deployment) : Harness :=
  ⟨Worker.run ext deployment, [], { world := .initial }⟩

inductive Step (ext : Externals) : Harness → Harness → Prop
  | answer {request : WorkerRequest} {next : request.Answer → Worker Unit}
      {chronicle : Chronicle} {service : Service} {answer : request.Answer} {service' : Service} :
      service.Answers request answer service' →
      Step ext ⟨.request request next, chronicle, service⟩
        ⟨next answer, ⟨request, answer⟩ :: chronicle, service'⟩
  /-- `changed_from` has found the value that it was called with, and waits for a change. -/
  | subscribe {observed : WorkerDrainState} {next : Unit → Worker Unit} {chronicle : Chronicle}
      {service : Service} : service.seen = none → service.drain = observed →
      Step ext ⟨.request (.drainChanged observed) next, chronicle, service⟩
        ⟨.request (.drainChanged observed) next, chronicle,
          { service with seen := some service.version }⟩
  | unroll {chronicle : Chronicle} {service : Service} {σ β : Type} {body : σ → Worker (σ ⊕ β)}
      {s : σ} {next : β → Worker Unit} :
      Step ext ⟨.loop body s next, chronicle, service⟩
        ⟨(body s).bind (.afterRound body next), chronicle, service⟩
  | moves {harness : Harness} {service : Service} : harness.service.Moves service →
      Step ext harness { harness with service := service }
  | restart {harness : Harness} {deployment : Deployment} :
      Step ext harness ⟨Worker.run ext deployment, [], { world := harness.service.world.restarted }⟩

def Runs (ext : Externals) : Harness → Harness → Prop := ReflTransGen (Step ext)

def Reachable (ext : Externals) (harness : Harness) : Prop :=
  ∃ deployment, Runs ext (start ext deployment) harness

/-- The worker waits for the answer to `request`. -/
def Requests (harness : Harness) (request : WorkerRequest) : Prop :=
  ∃ next, harness.worker = .request request next

/-- The process has said what it has. -/
def Spoken (ext : Externals) (harness : Harness) : Prop :=
  ∃ deployment, Reaches recording (Worker.run ext deployment, [])
    (harness.worker, harness.chronicle)

variable {ext : Externals} {harness after : Harness}

theorem Step.spoken (h : Step ext harness after) (hspoken : harness.Spoken ext) :
    after.Spoken ext := by
  obtain ⟨deployment, hspoken⟩ := hspoken
  cases h with
  | answer => exact ⟨deployment, hspoken.tail (.answer rfl)⟩
  | subscribe => exact ⟨deployment, hspoken⟩
  | unroll => exact ⟨deployment, hspoken.tail .unroll⟩
  | moves => exact ⟨deployment, hspoken⟩
  | @restart _ deployment' => exact ⟨deployment', .refl⟩

/-- Every request fits its place. -/
theorem Spoken.fits (h : harness.Spoken ext) {request : WorkerRequest}
    (hrequest : harness.Requests request) : harness.chronicle.Fits request := by
  obtain ⟨deployment, hspoken⟩ := h
  obtain ⟨next, hnext⟩ := hrequest
  exact (Worker.run_placed _ _ hspoken).2.1 request next hnext

end Harness

end PackageHarness
