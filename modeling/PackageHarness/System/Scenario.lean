/-
# PackageHarness.System.Scenario — the surroundings of the worker, scripted.

A `Scenario` fixes what the package manager and the coordinator answer, how saves turn out, and
during which save the heartbeat loses the claim. The replies that follow from it, `World.reply`, are
ones that the surroundings admit, so a replayed worker is a run of the system.
-/
import Mathlib.Data.List.Sort
import PackageHarness.Interaction.Replay
import PackageHarness.System.Machine

namespace PackageHarness

open Interaction Relation

/-- How a save turns out: what it reports, and whether it took effect. -/
inductive SaveFate
  | done
  | failed
  /-- The file was replaced, but the save reports an error. -/
  | unreported
  deriving DecidableEq

structure Scenario where
  packageManager : (call : PmCall) → Except PackageManagerError call.Reply
  /-- The inventory that removals are verified against. -/
  remaining : List PackageSummary := []
  claim : Except CoordinatorError ClaimOutcome
  complete : Except CoordinatorError CompletionDisposition
  fate : SaveSite → SaveFate := fun _ => .done
  losesClaimAt : SaveSite → Bool := fun _ => false
  /-- The request at which the replay ends. -/
  stops : World → WorkerRequest → Bool
  /-- Whether the replay also ends before any step that could show a defect. -/
  careful : Bool := true

namespace Scenario

/-- The requests at which a defect can show. -/
def risky (scenario : Scenario) : WorkerRequest → Bool
  | .runner _ (.save (.restartCleanup .claimLost) record) => record.cleanup.status != .passed
  | .runner _ (.enter (.settleRecovered record)) =>
      Runner.cleanupFailed record || !record.deliverable && record.worker.workerError.isSome
  | .runner _ (.save (.recoveryState cause) _) => scenario.fate (.recoveryState cause) != .done
  | .runner _ (.save (.phase .finished) _) => scenario.fate (.phase .finished) != .done
  | _ => false

def ends (scenario : Scenario) (world : World) (request : WorkerRequest) : Bool :=
  scenario.stops world request || scenario.careful && scenario.risky request

/-- The scenario keeps clear of the defects that are to be avoided. -/
def Avoids (scenario : Scenario) (avoided : Defect → Prop) : Prop :=
  scenario.careful = true ∨ ∀ defect, ¬ avoided defect

end Scenario

/-! ## Replies -/

def RunStore.saved (store : RunStore) (record : RunRecord) :
    SaveFate → Except StoreError Unit × RunStore
  | .done => (.ok (), store.write record)
  | .failed => (.error (.io "disk full"), store)
  | .unreported => (.error (.io "directory sync failed"), store.write record)

def RunStore.created (store : RunStore) (record : RunRecord) :
    Except StoreError Unit × RunStore :=
  match store record.id with
  | none => (.ok (), store.write record)
  | some _ => (.error .alreadyExists, store)

/-- Every record, oldest first. -/
def RunStore.listing (store : RunStore) : List RunRecord :=
  store.records.insertionSort fun earlier later => earlier.createdAt ≤ later.createdAt

theorem RunStore.lists_listing (store : RunStore) : store.Lists store.listing := by
  have total : Std.Total fun earlier later : RunRecord => earlier.createdAt ≤ later.createdAt :=
    ⟨fun a b => le_total a.createdAt b.createdAt⟩
  have trans : IsTrans RunRecord fun earlier later => earlier.createdAt ≤ later.createdAt :=
    ⟨fun _ _ _ h h' => le_trans h h'⟩
  exact ⟨List.perm_insertionSort _ _, List.pairwise_insertionSort _ _⟩

namespace Ledger

def withStore (ledger : Ledger) (store : RunStore) : Ledger := { ledger with store := store }

def reply (scenario : Scenario) (ledger : Ledger) (run : RunId) :
    (request : RunnerRequest) → request.Answer × Ledger
  | .pm (.listPackages .preflight) =>
      match scenario.packageManager (.listPackages .preflight) with
      | .ok packages => (.ok packages, ledger.noteInventory run packages)
      | .error error => (.error error, ledger)
  | .pm call => (scenario.packageManager call, ledger)
  | .listPackagesWithin _ => (some (.ok scenario.remaining), ledger)
  | .analyze _ => (.error .timeout, ledger)
  -- time stands still, so no timeout ever fires
  | .now => ((0 : Int), ledger)
  | .instant => ((0 : Nat), ledger)
  | .control => (.proceed, ledger)
  | .get id => (.ok (ledger.store id), ledger)
  | .save site record =>
      let (answer, store) := ledger.store.saved record (scenario.fate site)
      (answer, ledger.withStore store)
  | .sleep _ | .publish _ _ | .enter _ => ((), ledger)

end Ledger

namespace Process

/-- The cells after the heartbeat lost the claim. -/
def withoutClaim (process : Process) : Process := { process with claimLost := true }

end Process

namespace World

/-- A reply that only touches the ledger. -/
def onLedger (world : World) {α : Type} (reply : α × Ledger) : Option (α × World) :=
  some (reply.1, { world with ledger := reply.2 })

/-- A reply that only touches the process. -/
def onProcess (world : World) {α : Type} (answer : α) (process : Process) :
    Option (α × World) :=
  some (answer, { world with process := process })

/-- The world while a save is pending. -/
def duringSave (world : World) (scenario : Scenario) (site : SaveSite) : World :=
  if scenario.losesClaimAt site && world.process.heartbeat then
    { world with process := world.process.withoutClaim }
  else world

def answer (scenario : Scenario) (world : World) :
    (request : WorkerRequest) → Option (request.Answer × World)
  | .runner _ .control => world.onProcess world.process.control world.process
  | .runner run (.save site record) =>
      (world.duringSave scenario site).onLedger
        (world.ledger.reply scenario run (.save site record))
  | .runner run request => world.onLedger (world.ledger.reply scenario run request)
  | .create record =>
      let (answer, store) := world.ledger.store.created record
      world.onLedger (answer, world.ledger.withStore store)
  | .loadAll => world.onLedger (.ok world.ledger.store.listing, world.ledger)
  | .claim => world.onLedger (scenario.claim, world.ledger)
  | .completeRaw _ _ => world.onLedger (scenario.complete, world.ledger)
  | .newProgress =>
      world.onProcess () { world.process with cancelRequested := false, claimLost := false }
  | .startHeartbeat _ _ => world.onProcess () { world.process with heartbeat := true }
  | .stopHeartbeat => world.onProcess () { world.process with heartbeat := false }
  | .claimLost => world.onProcess world.process.claimLost world.process
  | .setNotReady reason => world.onProcess () { world.process with readiness := some reason }
  | .clearReadiness => world.onProcess () { world.process with readiness := none }
  | .now => world.onProcess (0 : Int) world.process
  | .accepting => world.onProcess world.process.accepting world.process
  | .drainState => world.onProcess world.process.drain world.process
  | .sleep _ | .idle _ => world.onProcess () world.process
  | .recoveryResume => world.onProcess () { world.process with recoveryPermit := true }
  -- nobody drains or resumes the worker here: the replay ends where it would wait for that
  | .markDrained | .drainChanged _ | .recoveryWait => none

/-- The scenario as a script for the worker. -/
def reply (scenario : Scenario) : Script WorkerRequest WorkerRequest.Answer World :=
  fun world request => if scenario.ends world request then none else world.answer scenario request

end World

/-! ## The surroundings admit the replies -/

variable {scenario : Scenario}

theorem RunStore.saved_saves (store : RunStore) (record : RunRecord) (fate : SaveFate) :
    store.Saves record (store.saved record fate).1 (store.saved record fate).2 := by
  cases fate with
  | done => exact rfl
  | failed => exact Or.inl rfl
  | unreported => exact Or.inr rfl

theorem RunStore.created_creates (store : RunStore) (record : RunRecord) :
    store.Creates record (store.created record).1 (store.created record).2 := by
  unfold created Creates
  cases store record.id with
  | none => exact rfl
  | some found => exact ⟨rfl, _, rfl⟩

theorem Ledger.reply_answers (ledger : Ledger) (run : RunId) (request : RunnerRequest) :
    ledger.Answers (.runner run request) (ledger.reply scenario run request).1
      (ledger.reply scenario run request).2 := by
  cases request with
  | save site record => exact ⟨ledger.store.saved_saves record _, rfl⟩
  | get id => exact ⟨rfl, fun found hfound => (Except.ok.inj hfound).symm⟩
  | pm call =>
      cases call with
      | listPackages purpose =>
          cases purpose with
          | preflight =>
              unfold reply Answers RunnerAnswers
              cases scenario.packageManager (.listPackages .preflight) with
              | ok packages => exact rfl
              | error error => exact rfl
          | _ => exact rfl
      | _ => exact rfl
  | _ => exact rfl

namespace World

/-- The reply is an answer of the ledger and of the process, once the world has drifted. -/
def Follows (world : World) (request : WorkerRequest) (answer : request.Answer) (after : World) :
    Prop :=
  ∃ drifted, ReflTransGen ((unattended noDefect).drift request) world drifted ∧
    drifted.ledger.Answers request answer after.ledger ∧
    drifted.process.Answers request answer after.process

/-- The world by the time the request is answered. -/
def during (scenario : Scenario) (world : World) : WorkerRequest → World
  | .runner _ (.save site _) => world.duringSave scenario site
  | _ => world

theorem drifts_duringSave (scenario : Scenario) (world : World) (site : SaveSite)
    (request : WorkerRequest) :
    ReflTransGen ((unattended noDefect).drift request) world (world.duringSave scenario site) := by
  unfold duringSave
  split
  · next h =>
      have hheartbeat : world.process.heartbeat = true := (Bool.and_eq_true_iff.mp h).2
      exact ReflTransGen.single ⟨rfl, .lostClaim hheartbeat⟩
  · exact .refl

@[simp] theorem duringSave_ledger (world : World) (site : SaveSite) :
    (world.duringSave scenario site).ledger = world.ledger := by
  unfold duringSave
  split <;> rfl

theorem onLedger_eq {world after : World} {α : Type} {reply : α × Ledger} {answer : α}
    (h : world.onLedger reply = some (answer, after)) :
    answer = reply.1 ∧ after = { world with ledger := reply.2 } := by
  have hpair := Option.some.inj h
  exact ⟨(congrArg Prod.fst hpair).symm, (congrArg Prod.snd hpair).symm⟩

theorem onProcess_eq {world after : World} {α : Type} {given answer : α} {process : Process}
    (h : world.onProcess given process = some (answer, after)) :
    answer = given ∧ after = { world with process := process } := by
  have hpair := Option.some.inj h
  exact ⟨(congrArg Prod.fst hpair).symm, (congrArg Prod.snd hpair).symm⟩

theorem answers_of_ledger {world after : World} {request : WorkerRequest}
    {reply : request.Answer × Ledger} {answer : request.Answer}
    (h : world.onLedger reply = some (answer, after))
    (hledger : world.ledger.Answers request reply.1 reply.2)
    (hprocess : world.process.Answers request reply.1 world.process) :
    world.ledger.Answers request answer after.ledger ∧
      world.process.Answers request answer after.process := by
  obtain ⟨rfl, rfl⟩ := onLedger_eq h
  exact ⟨hledger, hprocess⟩

theorem answers_of_process {world after : World} {request : WorkerRequest}
    {given answer : request.Answer} {process : Process}
    (h : world.onProcess given process = some (answer, after))
    (hledger : world.ledger.Answers request given world.ledger)
    (hprocess : world.process.Answers request given process) :
    world.ledger.Answers request answer after.ledger ∧
      world.process.Answers request answer after.process := by
  obtain ⟨rfl, rfl⟩ := onProcess_eq h
  exact ⟨hledger, hprocess⟩

theorem answer_answers {world after : World} {request : WorkerRequest} {answer : request.Answer}
    (h : world.answer scenario request = some (answer, after)) :
    (world.during scenario request).ledger.Answers request answer after.ledger ∧
      (world.during scenario request).process.Answers request answer after.process := by
  cases request with
  | runner run request =>
      cases request with
      | control => exact answers_of_process h rfl ⟨rfl, rfl⟩
      | save site record =>
          -- the heartbeat task moves first, then the ledger answers the save
          refine answers_of_ledger h ?_ rfl
          rw [during, duringSave_ledger]
          exact world.ledger.reply_answers run (.save site record)
      | _ => exact answers_of_ledger h (world.ledger.reply_answers run _) rfl
  | create record =>
      exact answers_of_ledger h ⟨world.ledger.store.created_creates record, rfl⟩ rfl
  | loadAll =>
      refine answers_of_ledger h ⟨rfl, fun records hrecords => ?_⟩ rfl
      rw [← Except.ok.inj hrecords]
      exact world.ledger.store.lists_listing
  | claim => exact answers_of_ledger h rfl rfl
  | completeRaw run body => exact answers_of_ledger h rfl rfl
  | claimLost => exact answers_of_process h rfl ⟨rfl, rfl⟩
  | accepting => exact answers_of_process h rfl ⟨rfl, rfl⟩
  | drainState => exact answers_of_process h rfl ⟨rfl, rfl⟩
  | markDrained => cases h
  | drainChanged observed => cases h
  | recoveryWait => cases h
  | _ => exact answers_of_process h rfl rfl

theorem answer_follows {world after : World} {request : WorkerRequest} {answer : request.Answer}
    (h : world.answer scenario request = some (answer, after)) :
    world.Follows request answer after := by
  refine ⟨world.during scenario request, ?_, answer_answers h⟩
  unfold during
  split
  · exact drifts_duringSave scenario world _ _
  · exact .refl

/-- Where no claim is lost, nothing moves before the answer. -/
theorem during_calm {world : World} {request : WorkerRequest}
    (hcalm : ∀ site, scenario.losesClaimAt site = false) :
    world.during scenario request = world := by
  unfold during
  split
  · simp [duringSave, hcalm]
  · rfl

theorem saved_reports {world after : World} {run : RunId} {site : SaveSite} {record : RunRecord}
    {answer : Except StoreError Unit} (hdone : scenario.fate site = .done)
    (h : world.answer scenario (.runner run (.save site record)) = some (answer, after)) :
    answer = .ok () := by
  obtain ⟨rfl, _⟩ := onLedger_eq h
  simp [Ledger.reply, hdone, RunStore.saved]

/-- Away from the risky requests no defect shows. -/
theorem answer_sound {world after : World} {request : WorkerRequest} {answer : request.Answer}
    {defect : Defect} (hsafe : scenario.risky request = false)
    (h : world.answer scenario request = some (answer, after)) :
    ¬ defect.ShownBy request answer after.ledger := by
  intro hshown
  -- one case per defect: each contradicts that the request is not risky
  unfold Defect.ShownBy at hshown
  split at hshown
  · next record _ =>
      have hpassed : record.cleanup.status = .passed := by simpa [Scenario.risky] using hsafe
      exact hshown hpassed
  · next record =>
      obtain ⟨_, _, hfailed⟩ := hshown
      simp [Scenario.risky, hfailed] at hsafe
  · next cause record error =>
      have hdone : scenario.fate (.recoveryState cause) = .done := by
        simpa [Scenario.risky] using hsafe
      cases saved_reports hdone h
  · next record error _ =>
      have hdone : scenario.fate (.phase .finished) = .done := by
        simpa [Scenario.risky] using hsafe
      cases saved_reports hdone h
  · next record =>
      obtain ⟨hopen, error, herror, _⟩ := hshown
      simp [Scenario.risky, hopen, herror] at hsafe
  · exact hshown

/-- A replay is a run of the system that shows none of the avoided defects. -/
theorem reply_admitted {avoided : Defect → Prop} (havoids : scenario.Avoids avoided) :
    (reply scenario).Admitted (unattended avoided) := by
  intro world request answer after h
  unfold reply at h
  split at h
  · cases h
  · next hends =>
      obtain ⟨drifted, hdrifts, hledger, hprocess⟩ := answer_follows h
      refine ⟨drifted, hdrifts, ⟨hledger, fun defect hdefect => ?_⟩, hprocess⟩
      rcases havoids with hcareful | hnone
      · -- a careful scenario has stopped before every risky request
        refine answer_sound ?_ h
        simp only [Scenario.ends, hcareful, Bool.true_and, Bool.or_eq_true, not_or] at hends
        simpa using hends.2
      · exact absurd hdefect (hnone defect)

end World

/-! ## Telling requests apart -/

namespace WorkerRequest

def claims : WorkerRequest → Bool
  | .claim => true
  | _ => false

/-- A completion of the run is sent, and its text passes the test. -/
def sends (run : RunId) (test : String → Bool) : WorkerRequest → Bool
  | .completeRaw id body => id = run && test body
  | _ => false

def calls (run : RunId) (call : PmCall) : WorkerRequest → Bool
  | .runner id (.pm requested) => id = run && requested = call
  | _ => false

def saves (site : SaveSite) : WorkerRequest → Bool
  | .runner _ (.save requested _) => requested = site
  | _ => false

def startsHeartbeat : WorkerRequest → Bool
  | .startHeartbeat _ _ => true
  | _ => false

/-- The request is made on behalf of a run. -/
def forRun : WorkerRequest → Bool
  | .runner _ _ => true
  | _ => false

/-- The worker waits for an operator. -/
def waits : WorkerRequest → Bool
  | .recoveryWait => true
  | _ => false

def waitsForChange (observed : WorkerDrainState) : WorkerRequest → Bool
  | .drainChanged state => state = observed
  | _ => false

def standsDown : WorkerRequest → Bool
  | .setNotReady _ => true
  | _ => false

/-- A delivery of the run starts with a record that passes the test. -/
def delivers (run : RunId) (test : RunRecord → Bool) : WorkerRequest → Bool
  | .runner id (.enter (.deliverUntilTerminal record)) => id = run && test record
  | _ => false

end WorkerRequest

/-! ## Replayed machines -/

/-- Something that passes a test; a replay is evaluated once, where it is defined. -/
abbrev Showing {α : Type*} (test : α → Bool) : Type _ := { a : α // test a = true }

namespace Machine

/-- Runs the worker against the scenario until it stops. -/
def replay (scenario : Scenario) (machine : Machine) : Machine :=
  Program.replay (World.reply scenario) 2000 machine

/-- The process dies, and a new one starts on what it left. -/
def restart (ext : Externals) (deployment : Deployment) (machine : Machine) : Machine :=
  (Worker.run ext deployment, machine.2.restarted)

/-- The worker waits for the answer to a request that passes the test. -/
def awaits (machine : Machine) (test : WorkerRequest → Bool) : Bool := machine.1.pending.any test

/-- The run has a durable record that passes the test. -/
def keeps (machine : Machine) (run : RunId) (test : RunRecord → Bool) : Bool :=
  (machine.2.ledger.store run).any test

variable {ext : Externals} {avoided : Defect → Prop} {machine : Machine} {deployment : Deployment}

theorem requests_of_awaits {test : WorkerRequest → Bool} (h : machine.awaits test = true) :
    ∃ request, machine.Requests request ∧ test request = true := by
  obtain ⟨request, hpending, htest⟩ := Option.any_eq_true _ _ |>.mp h
  exact ⟨request, Program.pending_eq_some hpending, htest⟩

theorem requests_claim (h : machine.awaits WorkerRequest.claims = true) :
    machine.Requests .claim := by
  obtain ⟨request, hrequest, htest⟩ := requests_of_awaits h
  cases request with
  | claim => exact hrequest
  | _ => cases htest

theorem requests_send (machine : Machine) (run : RunId) (test : String → Bool)
    (h : machine.awaits (WorkerRequest.sends run test) = true) :
    ∃ body, machine.Requests (.completeRaw run body) ∧ test body = true := by
  obtain ⟨request, hrequest, htest⟩ := requests_of_awaits h
  unfold WorkerRequest.sends at htest
  split at htest
  · next id body =>
      simp only [Bool.and_eq_true, decide_eq_true_eq] at htest
      rw [htest.1] at hrequest
      exact ⟨body, hrequest, htest.2⟩
  · cases htest

theorem requests_call {run : RunId} {call : PmCall}
    (h : machine.awaits (WorkerRequest.calls run call) = true) :
    machine.Requests (.runner run (.pm call)) := by
  obtain ⟨request, hrequest, htest⟩ := requests_of_awaits h
  unfold WorkerRequest.calls at htest
  split at htest
  · simp only [Bool.and_eq_true, decide_eq_true_eq] at htest
    rw [htest.1, htest.2] at hrequest
    exact hrequest
  · cases htest

theorem requests_delivery (machine : Machine) (run : RunId) (test : RunRecord → Bool)
    (h : machine.awaits (WorkerRequest.delivers run test) = true) :
    ∃ record, machine.Requests (.runner run (.enter (.deliverUntilTerminal record))) ∧
      test record = true := by
  obtain ⟨request, hrequest, htest⟩ := requests_of_awaits h
  unfold WorkerRequest.delivers at htest
  split at htest
  · next id record =>
      simp only [Bool.and_eq_true, decide_eq_true_eq] at htest
      rw [htest.1] at hrequest
      exact ⟨record, hrequest, htest.2⟩
  · cases htest

theorem durable_of_keeps (machine : Machine) (run : RunId) (test : RunRecord → Bool)
    (h : machine.keeps run test = true) :
    ∃ record, machine.Durable run record ∧ test record = true :=
  Option.any_eq_true _ _ |>.mp h

theorem runs_replay (havoids : scenario.Avoids avoided) :
    Runs ext avoided machine (machine.replay scenario) := by
  have hadmitted : (World.reply scenario).Admitted (surroundings avoided) :=
    (World.reply_admitted havoids).mono (fun _ _ _ _ h => h) fun _ _ _ h => Or.inl h
  exact (Program.reaches_replay hadmitted _ machine).lift id fun _ _ => Step.work

theorem runs_restart : Runs ext avoided machine (machine.restart ext deployment) :=
  ReflTransGen.single .restart

theorem reachable_start : Reachable ext avoided (start ext deployment) := ⟨deployment, .refl⟩

theorem Reachable.replay (h : Reachable ext avoided machine) (havoids : scenario.Avoids avoided) :
    Reachable ext avoided (machine.replay scenario) := by
  obtain ⟨first, hruns⟩ := h
  exact ⟨first, hruns.trans (runs_replay havoids)⟩

theorem Reachable.restart (h : Reachable ext avoided machine) :
    Reachable ext avoided (machine.restart ext deployment) := by
  obtain ⟨first, hruns⟩ := h
  exact ⟨first, hruns.trans runs_restart⟩

end Machine

/-! ## A job and its surroundings -/

namespace Sample

def ext : Externals := ⟨id, fun _ => "1970-01-01T00:00:00Z"⟩

def target : DnpName := ⟨"example.dnp.dappnode.eth"⟩

def run : RunId := ⟨"run-1"⟩

def request : RunRequest where
  schemaVersion := 1
  runId := run
  source := ⟨"dappnode/example", 7, "0123456789abcdef"⟩
  package := ⟨target, ⟨"0.2.0"⟩, none⟩

def deployment : Deployment where
  runner :=
    { harnessDnpName := "package-harness.dnp.dappnode.eth"
      stabilization := ⟨.ofMillis 180000, .ofMillis 5000, 3⟩
      logTail := 200
      cleanupTimeout := .ofMillis 60000 }
  worker :=
    { workerId := "worker-1"
      harnessDnpName := "package-harness.dnp.dappnode.eth"
      pollInterval := .ofMillis 5000
      heartbeatInterval := .ofMillis 30000
      cleanupTimeout := .ofMillis 60000 }

def toolFailure : PackageManagerError := .tool "install" "disk full"

/-- Nothing can be installed; `installed` is what is there, `removal` how removals end. -/
def packageManager (installed : List PackageSummary) (removal : Except PackageManagerError Unit) :
    (call : PmCall) → Except PackageManagerError call.Reply
  | .verifyTools => .ok ⟨[], []⟩
  | .listPackages _ => .ok installed
  | .previewInstall _ _ => .ok ⟨none, none, none, none, false, ""⟩
  | .removePackage _ _ => removal
  | .getPackageDetails _ | .getPackageLogs _ _ => .error .notFound
  | .installPackage _ _ | .installPackageBypassingSignature _ _ | .updatePackage _ _ =>
      .error toolFailure

/-- The baseline cannot be installed, and the target is removed again. -/
def installFails (stops : World → WorkerRequest → Bool) : Scenario where
  packageManager := packageManager [] (.ok ())
  claim := .ok (.claimed ⟨request, "claim-token-1"⟩)
  complete := .ok .recorded
  stops := stops

/-- The controller's last save takes effect and reports an error. -/
def lastSaveUnreported (stops : World → WorkerRequest → Bool) : Scenario :=
  { installFails stops with
    fate := fun site => if site = .phase .finished then .unreported else .done
    careful := false }

/-- The claimed package is a core package. -/
def coreTarget (stops : World → WorkerRequest → Bool) : Scenario :=
  { installFails stops with
    packageManager := packageManager [⟨target, none, true⟩] (.ok ())
    careful := false }

/-- The baseline cannot be installed, and the target cannot be removed either. -/
def cleanupFails (stops : World → WorkerRequest → Bool) : Scenario :=
  { installFails stops with
    packageManager := packageManager [] (.error toolFailure)
    careful := false }

/-- The same, and the heartbeat loses the claim while cleanup is being authorized. -/
def claimLost (stops : World → WorkerRequest → Bool) : Scenario :=
  { cleanupFails stops with losesClaimAt := fun site => site = .authorization }

/-- The coordinator rejects every completion as conflicting. -/
def conflict (stops : World → WorkerRequest → Bool) : Scenario :=
  { installFails stops with
    complete := .error (.completionConflict ⟨409, "Conflict"⟩ "a different result is recorded") }

/-- A restart cannot persist the recovery state of the job that it finds. -/
def recoveryUnsaved (stops : World → WorkerRequest → Bool) : Scenario :=
  { installFails stops with
    fate := fun site => if site = .recoveryState .restart then .failed else .done
    careful := false }

/-- The worker claims although the store is not empty any more. -/
def claimsAgain (world : World) (request : WorkerRequest) : Bool :=
  request.claims && !world.ledger.store.records.isEmpty

def sends (_ : World) (request : WorkerRequest) : Bool := request.sends run fun _ => true

/-- The run's delivery starts. -/
def delivers (_ : World) (request : WorkerRequest) : Bool := request.delivers run fun _ => true

end Sample

end PackageHarness
