/-
# PackageHarness.Guarantees.Drained — a drained worker is at rest.

Only the worker itself marks the drain as complete, between two jobs, and it does not claim again
before it has seen the drain resumed. So as long as the process is drained, whatever operators and
other tasks do, nothing is in flight and nothing is left to do.
-/
import PackageHarness.Api.Jobs
import PackageHarness.System.Postponement

namespace PackageHarness

open Interaction Relation

variable {ext : Externals} {life after : Life}

/-- What the worker asks while it waits until it may accept jobs. -/
def WorkerRequest.AwaitsAcceptance : WorkerRequest → Prop
  | accepting | drainState | markDrained | drainChanged _ => True
  | _ => False

namespace Place

/-- In `waitUntilAccepting` with the drain marked as complete, or beyond it for good. -/
def AtRest (place : Place) : Prop := place.parked = true ∨ place = closed

theorem AtRest.allows {place : Place} (h : place.AtRest) {request : WorkerRequest}
    (hallows : place.Allows request) : request.AwaitsAcceptance := by
  rcases h with hparked | rfl
  · cases place with
    | checked parked =>
        cases hallows
        trivial
    | observed parked state =>
        cases state <;> cases hallows <;> trivial
    | marked =>
        cases hallows
        trivial
    | rested parked =>
        cases hallows
        trivial
    | _ => cases hparked
  · exact hallows.elim

/-- While the process is drained, the worker goes round in circles there. -/
theorem AtRest.next {place : Place} (h : place.AtRest) {request : WorkerRequest}
    (hallows : place.Allows request) {answer : request.Answer} {process process' : Process}
    (hanswer : process.Answers request answer process') (hdrained : process.drain = .drained) :
    (place.next request answer).AtRest := by
  rcases h with hparked | rfl
  · cases place with
    | checked parked =>
        cases hallows
        obtain ⟨rfl, _⟩ := hanswer
        rw [hdrained]
        exact Or.inl hparked
    | observed parked state =>
        cases state <;> cases hallows
        · exact Or.inl hparked
        · exact Or.inl rfl
        · exact Or.inl hparked
    | marked =>
        cases hallows
        exact Or.inl rfl
    | rested parked =>
        cases hallows
        cases answer with
        | false => exact Or.inr rfl
        | true => exact Or.inl hparked
    | _ => cases hparked
  · exact hallows.elim

end Place

namespace Life

/-- The worker has no more to ask, whatever comes. -/
def Over (life : Life) : Prop :=
  ∀ c, Reaches recording (life.worker, life.chronicle) c → c.1.pending = none

/-- Nothing is in flight, and nothing is left to do. -/
structure Quiescent (life : Life) : Prop where
  waiting : life.chronicle.place.parked = true ∨ life.Over
  idle : ∀ request, life.Requests request → request.AwaitsAcceptance
  still : life.world.process.heartbeat = false
  settled : ∀ run record, life.world.ledger.store run = some record →
    record.requiresWorkerAttention = false

/-- In this step the drain is resumed, or the process restarted. -/
def Resumes (before after : Life) : Prop :=
  before.world.process.drain = .drained ∧ after.world.process.drain = .accepting

def UnresumedRuns (ext : Externals) : Life → Life → Prop :=
  ReflTransGen fun before after => Step ext atomicOperators before after ∧ ¬ Resumes before after

/-! ## The heartbeat -/

theorem heartbeat_of_stirs {world world' : World} (h : world.Stirs world') :
    world'.process.heartbeat = world.process.heartbeat := by
  obtain ⟨_, hmoves⟩ := h
  generalize world'.process = process at hmoves
  cases hmoves <;> rfl

/-- The heartbeat is what the conversation says. -/
theorem Step.beating (h : Step ext atomicOperators life after)
    (hbeats : life.world.process.heartbeat = life.chronicle.beating) :
    after.world.process.heartbeat = after.chronicle.beating := by
  cases h with
  | @answer past deployment chronicle request next world answer world' hanswer =>
      obtain ⟨_, hprocess⟩ := hanswer
      have hbeats : world.process.heartbeat = Chronicle.beating chronicle := hbeats
      have hcells : ¬ request.Beats → world'.process.heartbeat = world.process.heartbeat :=
        hprocess.cells.2.2.1
      show world'.process.heartbeat = Chronicle.beating (⟨request, answer⟩ :: chronicle)
      cases request with
      | startHeartbeat run claimToken =>
          rw [hprocess]
          rfl
      | stopHeartbeat =>
          rw [hprocess]
          rfl
      | _ => exact (hcells id).trans hbeats
  | drift hdrift => exact (heartbeat_of_stirs hdrift).trans hbeats
  | unroll => exact hbeats
  | outside hmoves =>
      rcases hmoves with hoperates | hstirs
      · cases hoperates <;> exact hbeats
      · exact (heartbeat_of_stirs hstirs).trans hbeats
  | restart => rfl

theorem Reachable.beating (h : Reachable ext atomicOperators life) :
    life.world.process.heartbeat = life.chronicle.beating := by
  obtain ⟨deployment, hruns⟩ := h
  induction hruns with
  | refl => rfl
  | tail _ hstep ih => exact hstep.beating ih

/-! ## The drain -/

/-- What holds while the process is drained. -/
structure Drained (life : Life) : Prop where
  place : life.chronicle.place.AtRest
  still : life.chronicle.beating = false
  quiet : life.world.ledger.Quiet

theorem Reachable.consistent (h : Reachable ext atomicOperators life) :
    life.world.ledger.Consistent ext noDefect := by
  obtain ⟨world, hmachine, hbehind⟩ := h.postponed
  exact hbehind.ledger.consistent hmachine.consistent

/-- The worker marks the drain as complete only on a quiet store. -/
theorem Reachable.quiet_of_marking (h : Reachable ext atomicOperators life)
    (hrequest : life.Requests .markDrained) : life.world.ledger.Quiet := by
  obtain ⟨world, hmachine, hbehind⟩ := h.postponed
  have hquiet : world.ledger.Quiet := hmachine.permits hrequest
  rw [hbehind.ledger.of_quiet hmachine.consistent hquiet]
  exact hquiet

/-- Operators find nothing to act on there. -/
theorem quiet_of_operates {world world' : World} (hinv : world.ledger.Consistent ext noDefect)
    (hquiet : world.ledger.Quiet) (h : world.Operates world') : world'.ledger.Quiet := by
  have hoperated : world.ledger.Operated world'.ledger := by
    cases h with
    | accepted h => exact ⟨_, _, _, h⟩
    | failed h => exact ⟨_, _, _, h⟩
  rw [Ledger.Behind.of_quiet (ReflTransGen.single hoperated) hinv hquiet]
  exact hquiet

/-- Where the worker is at rest, it has no heartbeat to start or stop and touches no store. -/
theorem answer_at_rest {request : WorkerRequest} (hrequest : request.AwaitsAcceptance)
    {ledger ledger' : Ledger} {answer : request.Answer}
    (hanswers : ledger.Answers request answer ledger') :
    ledger' = ledger ∧ ¬ request.Beats := by
  cases request with
  | accepting => exact ⟨hanswers, id⟩
  | drainState => exact ⟨hanswers, id⟩
  | markDrained => exact ⟨hanswers, id⟩
  | drainChanged observed => exact ⟨hanswers, id⟩
  | _ => exact hrequest.elim

/-- No other task completes a drain. -/
theorem drained_of_stirs {world world' : World} (h : world.Stirs world')
    (hdrained : world'.process.drain = .drained) : world.process.drain = .drained := by
  obtain ⟨_, hmoves⟩ := h
  generalize world'.process = process at hmoves hdrained
  cases hmoves with
  | drainRequested =>
      by_cases haccepting : world.process.drain = .accepting
      · simp [haccepting] at hdrained
      · simpa [haccepting] using hdrained
  | drainResumed => cases hdrained
  | _ => exact hdrained

/-- Nor does one undo it, other than by resuming. -/
theorem stays_drained_of_stirs {world world' : World} (h : world.Stirs world')
    (hdrained : world.process.drain = .drained) (hresumed : world'.process.drain ≠ .accepting) :
    world'.process.drain = .drained := by
  obtain ⟨_, hmoves⟩ := h
  generalize world'.process = process at hmoves hresumed
  cases hmoves with
  | drainRequested => simp [hdrained]
  | drainResumed => exact absurd rfl hresumed
  | _ => exact hdrained

theorem Step.drained (h : Step ext atomicOperators life after)
    (hlife : Reachable ext atomicOperators life)
    (hrested : life.world.process.drain = .drained → life.Drained)
    (hdrained : after.world.process.drain = .drained) : after.Drained := by
  cases h with
  | @answer past deployment chronicle request next world answer world' hanswer =>
      obtain ⟨⟨hanswers, _⟩, hprocess⟩ := hanswer
      have hfits : Chronicle.Fits chronicle request := hlife.fits ⟨next, rfl⟩
      have hdrained : world'.process.drain = .drained := hdrained
      obtain ⟨_, hdrain, _⟩ := hprocess.cells
      by_cases hmarks : request = .markDrained
      · -- the drain has just been completed
        subst hmarks
        have hquiet : world.ledger.Quiet := hlife.quiet_of_marking ⟨next, rfl⟩
        have hsame : world'.ledger = world.ledger := hanswers
        exact ⟨Or.inl rfl, hfits.still rfl, hsame ▸ hquiet⟩
      · have hbefore : world.process.drain = .drained := (hdrain hmarks).symm.trans hdrained
        have hrested := hrested hbefore
        have hplace : (Chronicle.place chronicle).AtRest := hrested.place
        obtain ⟨hsame, hbeats⟩ := answer_at_rest (hplace.allows hfits.allowed) hanswers
        have hstands : Stands (Chronicle.place chronicle) false chronicle := ⟨rfl, hrested.still⟩
        refine ⟨hplace.next hfits.allowed hprocess hbefore, ?_, hsame ▸ hrested.quiet⟩
        exact (hstands.answered hbeats answer).2
  | @drift past deployment chronicle request next world world' hdrift =>
      have hrested := hrested (drained_of_stirs hdrift hdrained)
      have hquiet : world'.ledger.Quiet := hdrift.1 ▸ hrested.quiet
      exact ⟨hrested.place, hrested.still, hquiet⟩
  | unroll =>
      have hrested := hrested hdrained
      exact ⟨hrested.place, hrested.still, hrested.quiet⟩
  | @outside _ world hmoves =>
      rcases hmoves with hoperates | hstirs
      · have hprocess : world.process.drain = life.world.process.drain := by
          cases hoperates <;> rfl
        have hrested := hrested (hprocess.symm.trans hdrained)
        exact ⟨hrested.place, hrested.still,
          quiet_of_operates hlife.consistent hrested.quiet hoperates⟩
      · have hrested := hrested (drained_of_stirs hstirs hdrained)
        have hquiet : world.ledger.Quiet := hstirs.1 ▸ hrested.quiet
        exact ⟨hrested.place, hrested.still, hquiet⟩
  | restart => cases hdrained

theorem Reachable.drained (h : Reachable ext atomicOperators life)
    (hdrained : life.world.process.drain = .drained) : life.Drained := by
  obtain ⟨deployment, hruns⟩ := h
  induction hruns with
  | refl => cases hdrained
  | tail hruns hstep ih => exact hstep.drained ⟨deployment, hruns⟩ ih hdrained

/-! ## At rest -/

/-- Where no request fits, the conversation has ended. -/
theorem Reachable.over (h : Reachable ext atomicOperators life)
    (hnone : ∀ request, ¬ life.chronicle.place.Allows request) : life.Over := by
  have hunasked : ∀ {c}, Reaches recording (life.worker, life.chronicle) c →
      c.2 = life.chronicle → c.1.pending = none := by
    intro c hc hchronicle
    refine Option.eq_none_iff_forall_ne_some.mpr fun request hpending => ?_
    obtain ⟨next, hnext⟩ := Program.pending_eq_some hpending
    have hfits := (Worker.run_placed _ _ (h.spoken.trans hc)).2.1 request next hnext
    rw [hchronicle] at hfits
    exact hnone request hfits.allowed
  intro c hc
  refine hunasked hc ?_
  induction hc with
  | refl => rfl
  | tail hc hstep ih =>
      cases hstep with
      | answer _ => cases hunasked hc ih
      | drift hdrift => exact hdrift.elim
      | unroll => exact ih

theorem Drained.quiescent (h : life.Drained) (hlife : Reachable ext atomicOperators life) :
    life.Quiescent where
  waiting := by
    refine h.place.imp id fun hclosed => hlife.over fun request hallows => ?_
    rw [hclosed] at hallows
    exact hallows
  idle := fun request hrequest => h.place.allows (hlife.fits hrequest).allowed
  still := hlife.beating.trans h.still
  settled := by
    intro run record hrecord
    rw [hlife.consistent.requiresWorkerAttention hrecord, h.quiet run record hrecord]
    rfl

/-- A drain that is complete stays so until it is resumed. -/
theorem Step.stays_drained (h : Step ext atomicOperators life after)
    (hdrained : life.world.process.drain = .drained) (hresumes : ¬ Resumes life after) :
    after.world.process.drain = .drained := by
  have hresumed : after.world.process.drain ≠ .accepting := fun h => hresumes ⟨hdrained, h⟩
  cases h with
  | @answer past deployment chronicle request next world answer world' hanswer =>
      obtain ⟨_, hprocess⟩ := hanswer
      have hbefore : world.process.drain = .drained := hdrained
      show world'.process.drain = .drained
      by_cases hmarks : request = .markDrained
      · subst hmarks
        rw [hprocess]
        simp [hbefore]
      · exact (hprocess.cells.2.1 hmarks).trans hbefore
  | drift hdrift => exact stays_drained_of_stirs hdrift hdrained hresumed
  | unroll => exact hdrained
  | outside hmoves =>
      rcases hmoves with hoperates | hstirs
      · cases hoperates <;> exact hdrained
      · exact stays_drained_of_stirs hstirs hdrained hresumed
  | restart => exact absurd rfl hresumed

theorem UnresumedRuns.stays_drained (h : UnresumedRuns ext life after)
    (hdrained : life.world.process.drain = .drained) :
    after.world.process.drain = .drained := by
  induction h with
  | refl => exact hdrained
  | tail _ hstep ih => exact hstep.1.stays_drained ih hstep.2

theorem UnresumedRuns.runs (h : UnresumedRuns ext life after) :
    Runs ext atomicOperators life after := by
  unfold UnresumedRuns at h
  exact h.lift id fun _ _ hstep => hstep.1

/-- The jobs endpoint calls a restart safe only when the process is drained. Then nothing is in
flight and no job is unresolved, and before the drain is resumed the worker claims nothing. -/
theorem drained_is_quiescent (config : Config) (h : Reachable ext atomicOperators life) :
    ((workerSummary config life.world.process.readiness life.world.process.drain).safeToRestart =
        true → life.world.process.drain = .drained) ∧
      (life.world.process.drain = .drained →
        life.Quiescent ∧ ∀ after, UnresumedRuns ext life after → ¬ after.Requests .claim) := by
  refine ⟨drained_of_safeToRestart, fun hdrained => ⟨(h.drained hdrained).quiescent h, ?_⟩⟩
  intro after hruns hclaim
  have hafter := h.runs hruns.runs
  have hrests := hafter.drained (hruns.stays_drained hdrained)
  exact (hrests.quiescent hafter).idle .claim hclaim

/-! ## A worker that is drained -/

/-- A drain is requested when the worker looks, and the worker marks it as complete. -/
def drains : Script WorkerRequest WorkerRequest.Answer World := fun world request =>
  match request with
  | .drainState =>
      if world.process.drain = .accepting then
        some (.draining, { world with process := { world.process with drain := .draining } })
      else
        none
  | .markDrained =>
      if world.process.drain = .draining then
        some ((), { world with process := { world.process with drain := .drained } })
      else
        none
  | request => World.reply (Sample.installFails fun _ _ => false) world request

theorem drains_admitted : drains.Admitted atomicOperators.surroundings := by
  have hreply : (World.reply (Sample.installFails fun _ _ => false)).Admitted
      (unattended noDefect) := World.reply_admitted (Or.inr fun _ h => h)
  intro world request answer world' h
  unfold drains at h
  split at h
  · split at h
    · next haccepting =>
        cases h
        let draining : World := { world with process := { world.process with drain := .draining } }
        have hmoves : world.process.Moves draining.process := by
          have hrequested : draining.process = { world.process with drain :=
              if world.process.drain = .accepting then .draining else world.process.drain } := by
            simp [draining, haccepting]
          rw [hrequested]
          exact .drainRequested
        refine ⟨draining, ReflTransGen.single ⟨rfl, hmoves⟩, ⟨rfl, fun _ hnone => hnone.elim⟩, ?_⟩
        exact ⟨rfl, rfl⟩
    · cases h
  · split at h
    · next hdraining =>
        cases h
        refine ⟨world, .refl, ⟨rfl, fun _ hnone => hnone.elim⟩, ?_⟩
        show _ = _
        simp [hdraining]
    · cases h
  · exact hreply world request answer world' h

def sampleConfig : Config where
  allowDestructiveTests := true
  packageManagerMode := .fake
  packageHarnessWorkerId := "worker-1"
  packageHarnessPoll := .ofMillis 5000
  packageHarnessHeartbeat := .ofMillis 30000

/-- The process is drained, and the worker waits for a change of that. -/
def waitsDrained (life : Life) : Bool :=
  (workerSummary sampleConfig life.world.process.readiness life.world.process.drain).safeToRestart &&
    life.chronicle.place.parked

def drainedAtStart : Showing waitsDrained :=
  ⟨(start Sample.ext Sample.deployment).follow drains, by decide +kernel⟩

theorem drained_at_start_is_quiescent : drainedAtStart.1.Quiescent := by
  obtain ⟨hsafe, _⟩ := Bool.and_eq_true_iff.mp drainedAtStart.2
  have hreachable : Reachable Sample.ext atomicOperators drainedAtStart.1 :=
    reachable_start.runs (runs_follow drains_admitted)
  obtain ⟨hdrained, hquiescent⟩ := drained_is_quiescent sampleConfig hreachable
  exact (hquiescent (hdrained hsafe)).1

end Life

end PackageHarness
