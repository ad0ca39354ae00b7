/-
# PackageHarness.System.Interleaving — recovery actions that take their time.

Here a recovery action is not one step. Its handler reads the record, changes its copy, and writes
the copy back some steps later, while the worker and other handlers move. A `Site` is the worker
with the handlers at work next to it; a handler that has returned stays listed, as the record of its
answer.
-/
import PackageHarness.System.Scenario

namespace PackageHarness

open Interaction Relation

/-- An operator's request and what remains of its handler. -/
structure Handler where
  action : RecoveryAction
  run : RunId
  program : Worker (Except OperatorRecoveryError Unit)

namespace Handler

def arrived (action : RecoveryAction) (run : RunId) : Handler := ⟨action, run, action.handle run⟩

/-- The handler with another program left to run. -/
def goesOn (handler : Handler) (program : Worker (Except OperatorRecoveryError Unit)) : Handler :=
  { handler with program := program }

/-- The action has answered. -/
def returned (handler : Handler) : Bool :=
  match handler.program with
  | .pure _ => true
  | _ => false

/-- The action has answered that it succeeded. -/
def succeeded (handler : Handler) : Bool :=
  match handler.program with
  | .pure (.ok _) => true
  | _ => false

end Handler

structure Site where
  worker : Worker Unit
  world : World
  handlers : List Handler

namespace Site

def start (ext : Externals) (deployment : Deployment) : Site :=
  ⟨Worker.run ext deployment, .initial, []⟩

/-- The worker and its world, without the handlers. -/
def machine (site : Site) : Machine := (site.worker, site.world)

/-- One step of one party. A handler moves only where `admits` lets it. -/
inductive Step (ext : Externals) (admits : Site → Handler → Prop) : Site → Site → Prop
  | work {site : Site} {worker : Worker Unit} {world : World} :
      Interaction.Step (unattended noDefect) (site.worker, site.world) (worker, world) →
      Step ext admits site { site with worker := worker, world := world }
  | arrive {site : Site} {action : RecoveryAction} {run : RunId} :
      Step ext admits site { site with handlers := .arrived action run :: site.handlers }
  | handle {site : Site} {earlier later : List Handler} {handler : Handler}
      {program : Worker (Except OperatorRecoveryError Unit)} {world : World} :
      site.handlers = earlier ++ handler :: later → admits site handler →
      Interaction.Step (unattended noDefect) (handler.program, site.world) (program, world) →
      Step ext admits site
        { site with world := world, handlers := earlier ++ handler.goesOn program :: later }
  | restart {site : Site} {deployment : Deployment} :
      Step ext admits site
        ⟨Worker.run ext deployment, site.world.restarted, site.handlers.filter Handler.returned⟩

/-- Any number of steps. -/
def Runs (ext : Externals) (admits : Site → Handler → Prop) : Site → Site → Prop :=
  ReflTransGen (Step ext admits)

def Reachable (ext : Externals) (admits : Site → Handler → Prop) (site : Site) : Prop :=
  ∃ deployment, Runs ext admits (start ext deployment) site

/-- Every interleaving is admitted. -/
def anyOrder : Site → Handler → Prop := fun _ _ => True

/-- The worker has ended, or waits without a copy of any record. -/
def HoldsNoCopy (site : Site) : Prop :=
  (∃ request next, site.worker = .request request next ∧ request.holdsCopy = false) ∨
    site.worker = .pure ()

/-- A handler writes only while the worker holds no copy, and only a change of the record that is
still the durable one. -/
def undisturbed (site : Site) (handler : Handler) : Prop :=
  ∀ run site' changed next,
    handler.program = .request (.runner run (.save site' changed)) next →
    site.HoldsNoCopy ∧ ∃ current, site.world.ledger.store handler.run = some current ∧
      handler.action.apply current = .ok changed

/-! ## Replayed sites -/

/-- The site with its worker somewhere else. -/
def withMachine (site : Site) (machine : Machine) : Site :=
  { site with worker := machine.1, world := machine.2 }

/-- The site with the handler that came last somewhere else. -/
def withHandler (worker : Worker Unit) (handler : Handler) (later : List Handler)
    (configuration : Worker (Except OperatorRecoveryError Unit) × World) : Site :=
  ⟨worker, configuration.2, handler.goesOn configuration.1 :: later⟩

/-- The worker runs against the scenario until it stops. -/
def work (scenario : Scenario) (site : Site) : Site :=
  site.withMachine (site.machine.replay scenario)

def arrive (action : RecoveryAction) (run : RunId) (site : Site) : Site :=
  { site with handlers := .arrived action run :: site.handlers }

/-- The handler that came last runs until it has answered. -/
def attend (scenario : Scenario) (site : Site) : Site :=
  match site.handlers with
  | [] => site
  | handler :: later => withHandler site.worker handler later
      (Program.replay (World.reply scenario) 100 (handler.program, site.world))

def restart (ext : Externals) (deployment : Deployment) (site : Site) : Site :=
  ⟨Worker.run ext deployment, site.world.restarted, site.handlers.filter Handler.returned⟩

variable {ext : Externals} {admits : Site → Handler → Prop} {site : Site} {scenario : Scenario}

theorem avoids_noDefect : scenario.Avoids noDefect := Or.inr fun _ h => h

theorem runs_work : Runs ext admits site (site.work scenario) := by
  have hreaches : Reaches (unattended noDefect) site.machine (site.machine.replay scenario) :=
    Program.reaches_replay (World.reply_admitted avoids_noDefect) _ _
  have hstep : ∀ c c', Interaction.Step (unattended noDefect) c c' →
      Step ext admits (site.withMachine c) (site.withMachine c') := fun _ _ h => .work h
  exact hreaches.lift site.withMachine hstep

theorem runs_attend (hadmits : ∀ site handler, admits site handler) :
    Runs ext admits site (site.attend scenario) := by
  obtain ⟨worker, world, handlers⟩ := site
  cases handlers with
  | nil => exact .refl
  | cons handler later =>
      -- the handler runs on alone, with the worker standing still
      have hreaches : Reaches (unattended noDefect) (handler.program, world)
          (Program.replay (World.reply scenario) 100 (handler.program, world)) :=
        Program.reaches_replay (World.reply_admitted avoids_noDefect) _ _
      have hstep : ∀ c c', Interaction.Step (unattended noDefect) c c' →
          Step ext admits (withHandler worker handler later c)
            (withHandler worker handler later c') := by
        intro c c' h
        have hlisted : (withHandler worker handler later c).handlers =
            [] ++ handler.goesOn c.1 :: later := rfl
        exact Step.handle hlisted (hadmits _ _) h
      exact hreaches.lift (withHandler worker handler later) hstep

end Site

end PackageHarness
