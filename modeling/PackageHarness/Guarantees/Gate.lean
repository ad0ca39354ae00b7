/-
# PackageHarness.Guarantees.Gate — the gate for destructive tests, and the worker that ignores it.

`Config.acceptanceError` says that a configuration is not fit for destructive tests, and the API
reports such a worker as blocked. Nothing between `main` and the claim request reads it: under every
configuration, and with any package manager, the started process sends a claim request.
-/
import PackageHarness.Api.Jobs
import PackageHarness.System.Scenario

namespace PackageHarness

open Interaction Relation

/-- How the selected package manager may answer. -/
abbrev PackageManagerBehaviour := (call : PmCall) → Except PackageManagerError call.Reply → Prop

/-- An inventory read under a timeout is answered like any other, unless time is up. -/
def PackageManagerBehaviour.Allows (behaviour : PackageManagerBehaviour) :
    (request : WorkerRequest) → request.Answer → Prop
  | .runner _ (.pm call), answer => behaviour call answer
  | .runner _ (.listPackagesWithin _), answer =>
      ∀ reply, answer = some reply → ∃ purpose, behaviour (.listPackages purpose) reply
  | _, _ => True

/-- The surroundings of a worker whose package manager behaves like this. -/
def supervised (behaviour : PackageManagerBehaviour) :
    Semantics WorkerRequest WorkerRequest.Answer World where
  answer := fun world request answer after =>
    (unattended noDefect).answer world request answer after ∧ behaviour.Allows request answer
  drift := (unattended noDefect).drift

namespace Config

/-- What the process that `main` starts on an empty store can reach. -/
def Process (config : Config) (ext : Externals) (behaviour : PackageManagerBehaviour)
    (machine : Machine) : Prop :=
  Reaches (supervised behaviour) (Machine.start ext config.deployment) machine

/-- The process never claims a job and never changes a package. -/
def StandsStill (config : Config) (ext : Externals) (behaviour : PackageManagerBehaviour) : Prop :=
  ∀ machine, config.Process ext behaviour machine →
    ¬ machine.Requests .claim ∧
    ∀ run call, call.mutating = true → ¬ machine.Requests (.runner run (.pm call))

end Config

/-- Replies that the package manager allows make a replay one of its runs. -/
theorem reply_supervised {behaviour : PackageManagerBehaviour} {scenario : Scenario}
    (hallows : ∀ world request answer after, scenario.stops world request = false →
      world.answer scenario request = some (answer, after) → behaviour.Allows request answer)
    (hcareful : scenario.careful = true) :
    (World.reply scenario).Admitted (supervised behaviour) := by
  intro world request answer after h
  have hadmitted : (World.reply scenario).Admitted (unattended noDefect) :=
    World.reply_admitted (Or.inl hcareful)
  obtain ⟨drifted, hdrifts, hanswer⟩ := hadmitted world request answer after h
  refine ⟨drifted, hdrifts, hanswer, ?_⟩
  unfold World.reply at h
  split at h
  · cases h
  · next hends =>
      simp only [Scenario.ends, Bool.or_eq_true, not_or] at hends
      exact hallows world request answer after (by simpa using hends.1) h

/-- The first claim request, before any request on behalf of a run. -/
def untilClaim : Scenario := Sample.installFails fun _ request =>
  request.claims || request.forRun

theorem untilClaim_claims (ext : Externals) (deployment : Deployment) :
    ((Machine.start ext deployment).replay untilClaim).awaits WorkerRequest.claims = true := rfl

/-- Whatever the configuration and the package manager, the started process claims. -/
theorem Config.claims (config : Config) (ext : Externals) (behaviour : PackageManagerBehaviour) :
    ∃ machine, config.Process ext behaviour machine ∧ machine.Requests .claim := by
  refine ⟨(Machine.start ext config.deployment).replay untilClaim, ?_,
    Machine.requests_claim (untilClaim_claims ext config.deployment)⟩
  refine Program.reaches_replay (reply_supervised ?_ rfl) _ _
  intro world request answer after hgoes _
  -- the replay stops before any request that the package manager would see
  cases request with
  | runner run request => cases hgoes
  | _ => trivial

/-- The gate is never observed: with the gate closed the worker claims all the same, while the API
reports it as blocked. -/
theorem closed_gate_is_ignored {config : Config} (ext : Externals)
    (behaviour : PackageManagerBehaviour) (hclosed : config.acceptanceError.isSome = true) :
    ¬ config.StandsStill ext behaviour ∧
    ∀ readiness drain, (workerSummary config readiness drain).status = "blocked" := by
  refine ⟨fun hstill => ?_, fun readiness drain => workerSummary_blocked_iff.mpr hclosed⟩
  obtain ⟨machine, hprocess, hclaim⟩ := config.claims ext behaviour
  exact (hstill machine hprocess).1 hclaim

/-- A configuration as `from_env` makes it when `ALLOW_DESTRUCTIVE_PACKAGE_TESTS` is not set. -/
def gated : Config where
  dappmanagerMcpUrl := some "http://dappmanager.dappnode/mcp"
  dappmanagerMcpToken := some "token"
  packageHarnessWorkerId := "worker-1"
  packageHarnessPoll := .ofMillis 5000
  packageHarnessHeartbeat := .ofMillis 30000

/-- A package manager that has no package installed and fails to install any. -/
def emptyManager : PackageManagerBehaviour :=
  fun call answer => answer = Sample.packageManager [] (.ok ()) call

theorem gated_worker_claims : ¬ gated.StandsStill Sample.ext emptyManager ∧
    (workerSummary gated none .accepting).status = "blocked" := by
  have hclosed : gated.acceptanceError.isSome = true := by decide
  obtain ⟨hmoves, hblocked⟩ := closed_gate_is_ignored Sample.ext emptyManager hclosed
  exact ⟨hmoves, hblocked none .accepting⟩

/-- The claimed job is executed up to its first installation. -/
def untilInstall : Scenario := Sample.installFails fun _ request =>
  request.calls Sample.run (.installPackage Sample.target none)

theorem untilInstall_allowed {world after : World} {request : WorkerRequest}
    {answer : request.Answer} (h : world.answer untilInstall request = some (answer, after)) :
    emptyManager.Allows request answer := by
  cases request with
  | runner run request =>
      cases request with
      | pm call =>
          obtain ⟨rfl, _⟩ := World.onLedger_eq h
          cases call with
          | listPackages purpose => cases purpose <;> rfl
          | _ => rfl
      | listPackagesWithin remaining =>
          obtain ⟨rfl, _⟩ := World.onLedger_eq h
          intro reply h
          cases h
          exact ⟨.finalInventory, rfl⟩
      | _ => trivial
  | _ => trivial

def atInstall : Showing fun machine : Machine =>
    machine.awaits (WorkerRequest.calls Sample.run (.installPackage Sample.target none)) :=
  ⟨(Machine.start Sample.ext gated.deployment).replay untilInstall, by decide +kernel⟩

/-- With the gate closed by default, the process claims a job and installs its package. -/
theorem gated_process_installs : gated.acceptanceError.isSome = true ∧
    (∃ machine, gated.Process Sample.ext emptyManager machine ∧ machine.Requests .claim) ∧
    ∃ machine, gated.Process Sample.ext emptyManager machine ∧ machine.Requests
      (.runner Sample.run (.pm (.installPackage Sample.target none))) := by
  refine ⟨by decide, gated.claims Sample.ext emptyManager, atInstall.1, ?_,
    Machine.requests_call atInstall.2⟩
  exact Program.reaches_replay
    (reply_supervised (fun world request answer after _ => untilInstall_allowed) rfl) _ _

end PackageHarness
