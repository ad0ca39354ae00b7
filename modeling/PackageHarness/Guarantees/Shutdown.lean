/-
# PackageHarness.Guarantees.Shutdown — what the shutdown signal wakes.

The signal requests a drain, clears the accepting flag and gives the recovery permit. The permit
comes last and is kept until somebody takes it, so a worker that waits for it, or comes to do so, is
woken and finds the flag cleared. The drain request is not: it changes nothing for a worker that is
drained already, and such a worker waits for a change of the drain state.
-/
import PackageHarness.System.Service

namespace PackageHarness

open Interaction Relation

namespace Harness

variable {ext : Externals} {harness after : Harness}

/-- `changed_from` waits, and the drain state has not changed since it began to. -/
def Waits (harness : Harness) : Prop := harness.service.seen = some harness.service.version

/-- The flag is cleared, and nothing that the signal does will wake the worker. -/
def Blocked (harness : Harness) : Prop :=
  harness.service.accepting = false ∧
    ((∃ observed, harness.Requests (.drainChanged observed)) ∧ harness.Waits ∨
      harness.Requests .recoveryWait ∧ harness.service.signal = .handled ∧
        harness.service.world.process.recoveryPermit = false)

/-- This step does not clear the flag of a worker that waits for a change of the drain state, and
the worker does not begin to wait for one once the flag is cleared. -/
structure Timely (before after : Harness) : Prop where
  cleared : before.service.accepting = true → after.service.accepting = false → ¬ before.Waits
  changed : before.service.accepting = false → before.service.seen = none →
    after.service.seen = none

def TimelyRuns (ext : Externals) : Harness → Harness → Prop :=
  ReflTransGen fun before after => Step ext before after ∧ Timely before after

/-! ## The invariant -/

/-- Whoever still waits after the flag is cleared has something to wake it. -/
structure Woken (harness : Harness) : Prop where
  known : ∀ {seen}, harness.service.seen = some seen → seen ≤ harness.service.version
  flag : harness.service.accepting = false ↔
    harness.service.signal = .refusing ∨ harness.service.signal = .handled
  changed : harness.service.accepting = false → ¬ harness.Waits
  permitted : harness.service.signal = .handled →
    harness.service.world.process.recoveryPermit = true ∨ harness.chronicle.place = .resumed ∨
      harness.chronicle.place = .closed

/-- Before the signal gets there, the flag is set. -/
theorem Woken.accepting (h : harness.Woken)
    (hsignal : harness.service.signal = .awaited ∨ harness.service.signal = .draining) :
    harness.service.accepting = true := by
  by_contra hcleared
  have hflag : harness.service.accepting = false := by simpa using hcleared
  rcases hsignal with hsignal | hsignal <;> rcases h.flag.mp hflag with hlater | hlater <;>
    cases hsignal.symm.trans hlater

/-- Another task that moves the cells takes no permit. -/
theorem permit_of_moves {process process' : Process} (h : process.Moves process')
    (hpermit : process.recoveryPermit = true) : process'.recoveryPermit = true := by
  cases h with
  | permit => rfl
  | _ => exact hpermit

section Sent

variable {service : Service} {drain : WorkerDrainState}

/-- What sending the drain state changes for who waits. -/
structure Service.Resends (before after : Service) : Prop where
  accepting : after.accepting = before.accepting
  permit : after.world.process.recoveryPermit = before.world.process.recoveryPermit
  signal : after.signal = before.signal
  seen : after.seen = before.seen
  version : before.version ≤ after.version

theorem Service.resends_sent : Service.Resends service (service.sent drain) :=
  ⟨rfl, rfl, rfl, rfl, Nat.le_succ _⟩

theorem Service.resends_requestDrain : Service.Resends service service.requestDrain := by
  unfold Service.requestDrain
  split
  · exact resends_sent
  · exact ⟨rfl, rfl, rfl, rfl, le_refl _⟩

theorem Service.resends_markDrained : Service.Resends service service.markDrained := by
  unfold Service.markDrained
  split
  · exact resends_sent
  · exact ⟨rfl, rfl, rfl, rfl, le_refl _⟩

/-- A change of the drain state wakes, and undoes no waking. -/
theorem Service.Resends.woken {service' : Service} {worker : Worker Unit} {chronicle : Chronicle}
    (h : Service.Resends service service') (hwoken : Woken ⟨worker, chronicle, service⟩) :
    Woken ⟨worker, chronicle, service'⟩ where
  known := by
    intro seen hseen
    have hbefore : service.seen = some seen := h.seen.symm.trans hseen
    exact (hwoken.known hbefore).trans h.version
  flag := by
    show service'.accepting = false ↔ service'.signal = .refusing ∨ service'.signal = .handled
    rw [h.accepting, h.signal]
    exact hwoken.flag
  changed := by
    intro hflag hwaits
    have hseen : service.seen = some service'.version := h.seen.symm.trans hwaits
    have hknown : service'.version ≤ service.version := hwoken.known hseen
    have hsame : service'.version = service.version := le_antisymm hknown h.version
    rw [hsame] at hseen
    exact hwoken.changed (h.accepting.symm.trans hflag) hseen
  permitted := by
    intro hhandled
    rw [show service'.world.process.recoveryPermit = _ from h.permit]
    exact hwoken.permitted (h.signal.symm.trans hhandled)

end Sent

theorem Moves.woken {service : Service} (h : harness.service.Moves service)
    (htimely : Timely harness { harness with service := service }) (hwoken : harness.Woken) :
    Woken { harness with service := service } := by
  obtain ⟨worker, chronicle, before⟩ := harness
  cases h with
  | @stirs process hmoves hdrain haccepting =>
      refine ⟨hwoken.known, ?_, ?_, ?_⟩
      · show process.accepting = false ↔ _
        rw [haccepting]
        exact hwoken.flag
      · intro hflag
        exact hwoken.changed (haccepting.symm.trans hflag)
      · intro hhandled
        exact (hwoken.permitted hhandled).imp_left (permit_of_moves hmoves)
  | @operates world hoperates =>
      have haccepting : world.process.accepting = before.world.process.accepting := by
        cases hoperates <;> rfl
      refine ⟨hwoken.known, ?_, fun hflag => hwoken.changed (haccepting.symm.trans hflag), ?_⟩
      · show world.process.accepting = false ↔ _
        rw [haccepting]
        exact hwoken.flag
      · intro hhandled
        refine (hwoken.permitted hhandled).imp_left fun hpermit => ?_
        have hpermit : before.world.process.recoveryPermit = true := hpermit
        cases hoperates with
        | accepted => simp [hpermit]
        | failed => exact hpermit
  | drainRequested => exact Service.resends_requestDrain.woken hwoken
  | drainResumed => exact Service.resends_sent.woken hwoken
  | signalDrains hsignal =>
      have hresent := Service.resends_requestDrain.woken hwoken
      have hset : before.requestDrain.accepting = true :=
        Service.resends_requestDrain.accepting.trans (hwoken.accepting (Or.inl hsignal))
      have hflag : ¬ before.requestDrain.accepting = false := by simp [hset]
      refine ⟨hresent.known, ⟨fun h => absurd h hflag, fun hlater => ?_⟩, fun h => absurd h hflag,
        fun hhandled => by cases hhandled⟩
      rcases hlater with hlater | hlater <;> cases hlater
  | signalRefuses hsignal =>
      refine ⟨hwoken.known, ⟨fun _ => Or.inl rfl, fun _ => rfl⟩, fun _ => ?_,
        fun hhandled => by cases hhandled⟩
      exact htimely.cleared (hwoken.accepting (Or.inr hsignal)) rfl
  | signalResumes hsignal =>
      have hflag : before.accepting = false := hwoken.flag.mpr (Or.inl hsignal)
      refine ⟨hwoken.known, ⟨fun _ => Or.inr rfl, fun _ => hflag⟩, fun _ => hwoken.changed hflag,
        fun _ => Or.inl rfl⟩

/-- A permit that is taken lets the worker look at the flag, and that is the end of it. -/
theorem permitted_of_answer {service : Service} {chronicle : Chronicle} {request : WorkerRequest}
    {answer : request.Answer} {process : Process} (hfits : chronicle.Fits request)
    (hanswers : service.world.process.Answers request answer process)
    (hflag : service.accepting = false)
    (hpermitted : service.world.process.recoveryPermit = true ∨ chronicle.place = .resumed ∨
      chronicle.place = .closed) :
    process.recoveryPermit = true ∨
      Chronicle.place (⟨request, answer⟩ :: chronicle) = .resumed ∨
      Chronicle.place (⟨request, answer⟩ :: chronicle) = .closed := by
  have hallowed := hfits.allowed
  rcases hpermitted with hpermit | hresumed | hclosed
  · by_cases hwait : request = .recoveryWait
    · subst hwait
      exact Or.inr (Or.inl rfl)
    · exact Or.inl (hanswers.cells.2.2.2 hwait hpermit)
  · rw [hresumed] at hallowed
    cases hallowed
    obtain ⟨rfl, _⟩ := hanswers
    have hflag : service.world.process.accepting = false := hflag
    rw [hflag]
    exact Or.inr (Or.inr rfl)
  · rw [hclosed] at hallowed
    exact hallowed.elim

theorem Answers.woken {service service' : Service} {worker worker' : Worker Unit}
    {chronicle : Chronicle} {request : WorkerRequest} {answer : request.Answer}
    (h : service.Answers request answer service') (hfits : chronicle.Fits request)
    (hwoken : Woken ⟨worker, chronicle, service⟩) :
    Woken ⟨worker', ⟨request, answer⟩ :: chronicle, service'⟩ := by
  -- what the answer leaves of the cells and of the subscription
  have hpermitted : ∀ process, service.world.process.Answers request answer process →
      service.signal = .handled → _ := fun process hanswers hhandled =>
    permitted_of_answer hfits hanswers (hwoken.flag.mpr (Or.inr hhandled))
      (hwoken.permitted hhandled)
  have hordinary : ∀ world, (unattended noDefect).answer service.world request answer world →
      Woken ⟨worker', ⟨request, answer⟩ :: chronicle, { service with world := world }⟩ := by
    intro world hanswers
    have haccepting : world.process.accepting = service.world.process.accepting :=
      hanswers.2.cells.1
    refine ⟨hwoken.known, ?_, fun hflag => hwoken.changed (haccepting.symm.trans hflag),
      hpermitted world.process hanswers.2⟩
    show world.process.accepting = false ↔ _
    rw [haccepting]
    exact hwoken.flag
  unfold Service.Answers at h
  split at h
  · obtain ⟨_, rfl⟩ := h
    exact ⟨nofun, hwoken.flag, fun _ hwaits => (by cases hwaits), hpermitted _ rfl⟩
  · subst h
    have hresent := Service.resends_markDrained.woken hwoken
    refine ⟨hresent.known, hresent.flag, hresent.changed, fun hhandled => ?_⟩
    rw [show service.markDrained.world.process.recoveryPermit = _ from
      Service.resends_markDrained.permit]
    let drained : Process := { service.world.process with drain :=
      if service.world.process.drain = .draining then .drained else service.world.process.drain }
    exact hpermitted drained rfl (Service.resends_markDrained.signal.symm.trans hhandled)
  · obtain ⟨world, hanswers, rfl⟩ := h
    exact hordinary world hanswers

theorem Step.woken (h : Step ext harness after) (htimely : Timely harness after)
    (hspoken : harness.Spoken ext) (hwoken : harness.Woken) : after.Woken := by
  cases h with
  | @answer request next chronicle service answer service' hanswers =>
      exact Answers.woken hanswers (hspoken.fits ⟨next, rfl⟩) hwoken
  | @subscribe observed next chronicle service hseen hdrain =>
      have hset : ¬ service.accepting = false := fun hcleared => by
        cases htimely.changed hcleared hseen
      refine ⟨fun hknown => ?_, hwoken.flag, fun hflag => absurd hflag hset, hwoken.permitted⟩
      cases hknown
      exact le_refl _
  | unroll => exact ⟨hwoken.known, hwoken.flag, hwoken.changed, hwoken.permitted⟩
  | moves hmoves => exact Moves.woken hmoves htimely hwoken
  | restart =>
      refine ⟨nofun, ⟨nofun, fun hlater => ?_⟩, nofun, nofun⟩
      rcases hlater with hlater | hlater <;> cases hlater

theorem start_woken {deployment : Deployment} : (start ext deployment).Woken := by
  refine ⟨nofun, ⟨nofun, fun hlater => ?_⟩, nofun, nofun⟩
  rcases hlater with hlater | hlater <;> cases hlater

theorem TimelyRuns.woken {deployment : Deployment}
    (h : TimelyRuns ext (start ext deployment) harness) :
    harness.Spoken ext ∧ harness.Woken := by
  induction h with
  | refl => exact ⟨⟨deployment, .refl⟩, start_woken⟩
  | tail _ hstep ih => exact ⟨hstep.1.spoken ih.1, hstep.1.woken hstep.2 ih.1 ih.2⟩

/-! ## Blocked or not -/

theorem Woken.not_blocked (h : harness.Woken) (hspoken : harness.Spoken ext) :
    ¬ harness.Blocked := by
  rintro ⟨hflag, ⟨_, hwaits⟩ | ⟨hrequest, hhandled, hpermit⟩⟩
  · exact h.changed hflag hwaits
  · have hallowed := (hspoken.fits hrequest).allowed
    rcases h.permitted hhandled with hgiven | hresumed | hclosed
    · rw [hpermit] at hgiven
      cases hgiven
    · rw [hresumed] at hallowed
      cases hallowed
    · rw [hclosed] at hallowed
      exact hallowed

/-! ## Timely steps -/

theorem Answers.keeps {service service' : Service} {request : WorkerRequest}
    {answer : request.Answer} (h : service.Answers request answer service') :
    service'.accepting = service.accepting ∧
      ((∃ observed, request = .drainChanged observed) ∧ service'.seen = none ∨
        service'.seen = service.seen) := by
  unfold Service.Answers at h
  split at h
  · obtain ⟨_, rfl⟩ := h
    exact ⟨rfl, Or.inl ⟨⟨_, rfl⟩, rfl⟩⟩
  · subst h
    exact ⟨Service.resends_markDrained.accepting, Or.inr Service.resends_markDrained.seen⟩
  · obtain ⟨world, hanswers, rfl⟩ := h
    exact ⟨hanswers.2.cells.1, Or.inr rfl⟩

/-- Answers neither clear the flag nor subscribe. -/
theorem timely_of_answer {service service' : Service} {request : WorkerRequest}
    {answer : request.Answer} (h : service.Answers request answer service')
    (worker worker' : Worker Unit) (chronicle chronicle' : Chronicle) :
    Timely ⟨worker, chronicle, service⟩ ⟨worker', chronicle', service'⟩ := by
  obtain ⟨hflag, hseen⟩ := Answers.keeps h
  refine ⟨fun hset hcleared => ?_, fun _ hnone => ?_⟩
  · cases hset.symm.trans (hflag.symm.trans hcleared)
  · rcases hseen with ⟨_, hgone⟩ | hsame
    · exact hgone
    · exact hsame.trans hnone

theorem Moves.seen {service service' : Service} (h : service.Moves service') :
    service'.seen = service.seen := by
  cases h with
  | drainRequested => exact Service.resends_requestDrain.seen
  | signalDrains => exact Service.resends_requestDrain.seen
  | _ => rfl

/-- Of the other tasks, only the signal clears the flag. -/
theorem Moves.clears {service service' : Service} (h : service.Moves service')
    (hset : service.accepting = true) (hcleared : service'.accepting = false) :
    service.signal = .draining ∧ service'.version = service.version := by
  have hresent : ∀ {after : Service}, Service.Resends service after → after.accepting = true :=
    fun hresends => hresends.accepting.trans hset
  cases h with
  | stirs _ _ haccepting => cases hset.symm.trans (haccepting.symm.trans hcleared)
  | operates hoperates =>
      have hkept : service.accepting = false := by cases hoperates <;> exact hcleared
      cases hset.symm.trans hkept
  | drainRequested => cases (hresent Service.resends_requestDrain).symm.trans hcleared
  | drainResumed => cases (hresent Service.resends_sent).symm.trans hcleared
  | signalDrains =>
      have hcleared : service.requestDrain.accepting = false := hcleared
      cases (hresent Service.resends_requestDrain).symm.trans hcleared
  | signalRefuses hsignal => exact ⟨hsignal, rfl⟩
  | signalResumes => cases hset.symm.trans hcleared

/-- Whoever has subscribed is in `changed_from`. -/
def Subscribed (harness : Harness) : Prop :=
  harness.service.seen.isSome → ∃ observed, harness.Requests (.drainChanged observed)

theorem Step.subscribed (h : Step ext harness after) (hsubscribed : harness.Subscribed) :
    after.Subscribed := by
  intro hseen
  cases h with
  | @answer request next chronicle service answer service' hanswers =>
      have hseen : service'.seen.isSome := hseen
      rcases (Answers.keeps hanswers).2 with ⟨_, hgone⟩ | hsame
      · simp [hgone] at hseen
      · -- a subscription that is still there belongs to the request that was answered
        have hsubscribed := hsubscribed (hsame ▸ hseen)
        obtain ⟨observed, next', hnext⟩ := hsubscribed
        cases hnext
        obtain ⟨_, rfl⟩ := hanswers
        cases hseen
  | @subscribe observed next _ _ _ _ => exact ⟨observed, next, rfl⟩
  | unroll =>
      obtain ⟨observed, next, hnext⟩ := hsubscribed hseen
      cases hnext
  | moves hmoves => exact hsubscribed ((Moves.seen hmoves) ▸ hseen)
  | restart => cases hseen

theorem TimelyRuns.subscribed {deployment : Deployment}
    (h : TimelyRuns ext (start ext deployment) harness) : harness.Subscribed := by
  induction h with
  | refl => exact fun hseen => by cases hseen
  | tail _ hstep ih => exact hstep.1.subscribed ih

/-- A step that is not timely blocks the worker at once. -/
theorem Step.blocked (h : Step ext harness after) (hsubscribed : harness.Subscribed)
    (huntimely : ¬ Timely harness after) : after.Blocked := by
  cases h with
  | answer hanswers => exact absurd (timely_of_answer hanswers _ _ _ _) huntimely
  | @subscribe observed next chronicle service hseen hdrain =>
      by_cases hset : service.accepting = true
      · refine absurd ⟨fun _ hcleared => ?_, fun hcleared _ => ?_⟩ huntimely
        · cases hset.symm.trans hcleared
        · cases hset.symm.trans hcleared
      · exact ⟨Bool.eq_false_of_not_eq_true hset, Or.inl ⟨⟨observed, next, rfl⟩, rfl⟩⟩
  | unroll =>
      refine absurd ⟨fun hset hcleared => ?_, fun _ hseen => hseen⟩ huntimely
      cases hset.symm.trans hcleared
  | @moves _ service hmoves =>
      have hseen := Moves.seen hmoves
      by_cases hclears : harness.service.accepting = true ∧ service.accepting = false ∧ harness.Waits
      · obtain ⟨hset, hcleared, hwaits⟩ := hclears
        have hversion := (Moves.clears hmoves hset hcleared).2
        have hrequest := hsubscribed (by rw [show harness.service.seen = _ from hwaits]; rfl)
        refine ⟨hcleared, Or.inl ⟨hrequest, ?_⟩⟩
        show service.seen = some service.version
        rw [hseen, hversion]
        exact hwaits
      · refine absurd ⟨fun hset hcleared hwaits => ?_, fun _ hnone => hseen.trans hnone⟩ huntimely
        exact hclears ⟨hset, hcleared, hwaits⟩
  | restart =>
      exact absurd ⟨fun _ hcleared => (by cases hcleared), fun _ _ => rfl⟩ huntimely

/-! ## What has gone before an untimely step -/

/-- A process takes the place of another one. -/
def Restarts (ext : Externals) (harness after : Harness) : Prop :=
  ∃ deployment, after = ⟨Worker.run ext deployment, [], { world := harness.service.world.restarted }⟩

/-- A run of one process. -/
def Lives (ext : Externals) : Harness → Harness → Prop :=
  ReflTransGen fun before after => Step ext before after ∧ ¬ Restarts ext before after

theorem Moves.grows {service service' : Service} (h : service.Moves service') :
    service.version ≤ service'.version ∧
      (service.accepting = false → service'.accepting = false) := by
  have hresent : ∀ {after : Service}, Service.Resends service after → service.version ≤ after.version ∧
      (service.accepting = false → after.accepting = false) :=
    fun hresends => ⟨hresends.version, fun hflag => hresends.accepting.trans hflag⟩
  cases h with
  | stirs _ _ haccepting => exact ⟨le_refl _, fun hflag => haccepting.trans hflag⟩
  | operates hoperates =>
      refine ⟨le_refl _, fun hflag => ?_⟩
      cases hoperates <;> exact hflag
  | drainRequested => exact hresent Service.resends_requestDrain
  | drainResumed => exact hresent Service.resends_sent
  | signalDrains =>
      have hdrained : service.version ≤ service.requestDrain.version ∧
          (service.accepting = false → service.requestDrain.accepting = false) :=
        hresent Service.resends_requestDrain
      exact hdrained
  | signalRefuses => exact ⟨le_refl _, fun _ => rfl⟩
  | signalResumes => exact ⟨le_refl _, id⟩

theorem Answers.version_le {service service' : Service} {request : WorkerRequest}
    {answer : request.Answer} (h : service.Answers request answer service') :
    service.version ≤ service'.version := by
  unfold Service.Answers at h
  split at h
  · obtain ⟨_, rfl⟩ := h
    exact le_refl _
  · subst h
    exact Service.resends_markDrained.version
  · obtain ⟨world, _, rfl⟩ := h
    exact le_refl _

/-- Within a process the drain state is only sent further, and a cleared flag stays so. -/
theorem Step.grows (h : Step ext harness after) (hlives : ¬ Restarts ext harness after) :
    harness.service.version ≤ after.service.version ∧
      (harness.service.accepting = false → after.service.accepting = false) := by
  cases h with
  | answer hanswers =>
      exact ⟨Answers.version_le hanswers, fun hflag => (Answers.keeps hanswers).1.trans hflag⟩
  | subscribe => exact ⟨le_refl _, id⟩
  | unroll => exact ⟨le_refl _, id⟩
  | moves hmoves => exact Moves.grows hmoves
  | restart => exact absurd ⟨_, rfl⟩ hlives

theorem Lives.version_le (h : Lives ext harness after) :
    harness.service.version ≤ after.service.version := by
  induction h with
  | refl => exact le_refl _
  | tail _ hstep ih => exact ih.trans (hstep.1.grows hstep.2).1

/-- The worker has not read the flag since it was cleared, or it has, and has nothing more to ask. -/
theorem Lives.unread (h : Lives ext harness after) (hflag : harness.service.accepting = false)
    (hspoken : harness.Spoken ext) :
    after.service.accepting = false ∧ after.Spoken ext ∧
      ((∃ later, after.chronicle = later ++ harness.chronicle ∧
        ∀ answer, ⟨.accepting, answer⟩ ∉ later) ∨ after.chronicle.place = .closed) := by
  induction h with
  | refl => exact ⟨hflag, hspoken, Or.inl ⟨[], rfl, fun _ => List.not_mem_nil⟩⟩
  | @tail before after _ hstep ih =>
      obtain ⟨hcleared, hspoken, hread⟩ := ih
      obtain ⟨hstep, hlives⟩ := hstep
      refine ⟨(hstep.grows hlives).2 hcleared, hstep.spoken hspoken, ?_⟩
      cases hstep with
      | @answer request next chronicle service answer service' hanswers =>
          have hallowed := (hspoken.fits ⟨next, rfl⟩).allowed
          rcases hread with ⟨later, hlater, hunread⟩ | hclosed
          · by_cases haccepting : request = .accepting
            · subst haccepting
              obtain ⟨world, ⟨-, hanswer, -⟩, -⟩ := hanswers
              have hcleared : service.world.process.accepting = false := hcleared
              rw [hanswer, hcleared]
              exact Or.inr rfl
            · refine Or.inl ⟨⟨request, answer⟩ :: later, congrArg (_ :: ·) hlater, ?_⟩
              rintro answer' hmem
              rcases List.mem_cons.mp hmem with hnow | hearlier
              · cases hnow
                exact haccepting rfl
              · exact hunread answer' hearlier
          · have hclosed : chronicle.place = .closed := hclosed
            rw [hclosed] at hallowed
            exact hallowed.elim
      | subscribe => exact hread
      | unroll => exact hread
      | moves => exact hread
      | restart => exact absurd ⟨_, rfl⟩ hlives

/-- Why a step is not timely. Either the signal clears the flag while the worker waits, and if its
request had found the worker accepting, the worker has subscribed since. Or the worker begins to wait
behind the cleared flag, and has not read it since it was cleared. -/
theorem Step.untimely_history (h : Step ext harness after) (huntimely : ¬ Timely harness after)
    (hspoken : harness.Spoken ext) :
    (harness.service.signal = .draining ∧ harness.Waits ∧
      ∀ earlier : Harness, earlier.service.drain = .accepting →
        (∀ {seen}, earlier.service.seen = some seen → seen ≤ earlier.service.version) →
        Lives ext { earlier with service := earlier.service.signalDrains } harness →
        harness.service.seen ≠ earlier.service.seen) ∨
    (∃ observed, harness.Requests (.drainChanged observed) ∧ harness.service.drain = observed ∧
      ∀ earlier : Harness, earlier.service.accepting = false → earlier.Spoken ext →
        Lives ext earlier harness → ∃ later, harness.chronicle = later ++ earlier.chronicle ∧
          ∀ answer, ⟨.accepting, answer⟩ ∉ later) := by
  cases h with
  | answer hanswers => exact absurd (timely_of_answer hanswers _ _ _ _) huntimely
  | @subscribe observed next chronicle service hseen hdrain =>
      have hrequest : Requests ⟨.request (.drainChanged observed) next, chronicle, service⟩
          (.drainChanged observed) := ⟨next, rfl⟩
      refine Or.inr ⟨observed, hrequest, hdrain, fun earlier hflag hearlier hlives => ?_⟩
      obtain ⟨-, -, hunread | hclosed⟩ := hlives.unread hflag hearlier
      · exact hunread
      · have hallowed := (hspoken.fits hrequest).allowed
        have hclosed : chronicle.place = .closed := hclosed
        rw [hclosed] at hallowed
        exact hallowed.elim
  | unroll =>
      refine absurd ⟨fun hset hcleared => ?_, fun _ hseen => hseen⟩ huntimely
      cases hset.symm.trans hcleared
  | @moves _ service hmoves =>
      have hseen := Moves.seen hmoves
      by_cases hclears : harness.service.accepting = true ∧ service.accepting = false ∧ harness.Waits
      · obtain ⟨hset, hcleared, hwaits⟩ := hclears
        refine Or.inl ⟨(Moves.clears hmoves hset hcleared).1, hwaits, ?_⟩
        intro earlier haccepting hknown hlives hsame
        -- the request has sent the drain state, so the subscription is of an older version
        have hsent : earlier.service.signalDrains.version = earlier.service.version + 1 := by
          show earlier.service.requestDrain.version = _
          rw [Service.requestDrain, if_pos haccepting]
          rfl
        have hversion : earlier.service.signalDrains.version ≤ harness.service.version :=
          hlives.version_le
        have hbefore : harness.service.version ≤ earlier.service.version :=
          hknown (hsame.symm.trans hwaits)
        omega
      · refine absurd ⟨fun hset hcleared hwaits => ?_, fun _ hnone => hseen.trans hnone⟩ huntimely
        exact hclears ⟨hset, hcleared, hwaits⟩
  | restart =>
      exact absurd ⟨fun _ hcleared => (by cases hcleared), fun _ _ => rfl⟩ huntimely

/-- In a run whose steps are timely the signal leaves no worker blocked, and the first step that is
not timely does. -/
theorem shutdown_blocks_untimely {deployment : Deployment}
    (h : TimelyRuns ext (start ext deployment) harness) :
    ¬ harness.Blocked ∧
      ∀ after, Step ext harness after → (after.Blocked ↔ ¬ Timely harness after) := by
  refine ⟨h.woken.2.not_blocked h.woken.1, fun after hstep => ⟨fun hblocked htimely => ?_, ?_⟩⟩
  · have hafter := (TimelyRuns.woken (h.tail ⟨hstep, htimely⟩))
    exact hafter.2.not_blocked hafter.1 hblocked
  · exact hstep.blocked h.subscribed

/-! ## Without jobs -/

/-- The service while nobody but the worker moves. -/
def answering : Semantics WorkerRequest WorkerRequest.Answer Service where
  answer := Service.Answers
  drift := fun _ _ _ => False

/-- How the service answers a worker that finds no job. -/
def idle : Script WorkerRequest WorkerRequest.Answer Service := fun service request =>
  match request with
  | .loadAll => some (.ok service.world.ledger.store.listing, service)
  | .clearReadiness =>
      some ((), service.withProcess { service.world.process with readiness := none })
  | .accepting => some (service.accepting, service)
  | .drainState => some (service.drain, service)
  | .markDrained => some ((), service.markDrained)
  | .drainChanged observed =>
      if service.seen = none ∧ service.drain ≠ observed then some ((), service) else none
  | _ => none

theorem idle_admitted : idle.Admitted answering := by
  intro service request answer service' h
  refine ⟨service, .refl, ?_⟩
  have hcells : ∀ {request : WorkerRequest} {answer : request.Answer} {process : Process},
      service.world.ledger.Answers request answer service.world.ledger →
      service.world.process.Answers request answer process →
      (unattended noDefect).answer service.world request answer ⟨service.world.ledger, process⟩ :=
    fun hledger hprocess => ⟨⟨hledger, fun _ hnone => hnone.elim⟩, hprocess⟩
  unfold idle at h
  split at h
  · cases h
    refine ⟨service.world, hcells ⟨rfl, fun records hrecords => ?_⟩ rfl, rfl⟩
    rw [← Except.ok.inj hrecords]
    exact service.world.ledger.store.lists_listing
  · cases h
    exact ⟨_, hcells rfl rfl, rfl⟩
  · cases h
    exact ⟨_, hcells rfl ⟨rfl, rfl⟩, rfl⟩
  · cases h
    exact ⟨_, hcells rfl ⟨rfl, rfl⟩, rfl⟩
  · cases h
    rfl
  · split at h
    · next hchanged =>
        cases h
        obtain ⟨world, version, seen, signal⟩ := service
        obtain ⟨rfl, hdrain⟩ := hchanged
        exact ⟨hdrain, rfl⟩
    · cases h
  · cases h

/-- The worker runs until it has to wait. -/
def settled (harness : Harness) : Harness :=
  let c := Program.replay idle.chronicled 2000 (harness.worker, harness.service, harness.chronicle)
  ⟨c.1, c.2.2, c.2.1⟩

/-- Answers alone are timely. -/
theorem runs_settled : TimelyRuns ext harness harness.settled := by
  obtain ⟨worker, chronicle, service⟩ := harness
  have hreaches := Program.reaches_replay idle_admitted.chronicled 2000 (worker, service, chronicle)
  let living : Worker Unit × Service × Chronicle → Harness := fun c => ⟨c.1, c.2.2, c.2.1⟩
  refine hreaches.lift living fun c c' hstep => ?_
  cases hstep with
  | @answer request next w answer w' hanswer =>
      obtain ⟨service', chronicle'⟩ := w'
      obtain ⟨hanswers, rfl⟩ := hanswer
      exact ⟨.answer hanswers, timely_of_answer hanswers _ _ _ _⟩
  | drift hdrift => exact hdrift.1.elim
  | unroll => exact ⟨.unroll, fun hset hcleared => (by cases hset.symm.trans hcleared), fun _ h => h⟩

/-- The signal has come, with its three effects one right after the other. -/
def signalled (harness : Harness) : Harness :=
  { harness with service := harness.service.signalDrains.signalRefuses.signalResumes }

theorem runs_signalled (h : harness.service.signal = .awaited) :
    Runs ext harness harness.signalled := by
  let draining : Harness := { harness with service := harness.service.signalDrains }
  let refusing : Harness := { draining with service := draining.service.signalRefuses }
  have hdrains : Step ext harness draining := .moves (.signalDrains h)
  have hrefuses : Step ext draining refusing := .moves (.signalRefuses rfl)
  have hresumes : Step ext refusing harness.signalled := .moves (.signalResumes rfl)
  exact ((ReflTransGen.single hdrains).tail hrefuses).tail hresumes

/-- Nobody who waits for a change of the drain state is there. -/
theorem timelyRuns_signalled (h : harness.service.signal = .awaited)
    (hset : harness.service.accepting = true) (hnone : harness.service.seen = none) :
    TimelyRuns ext harness harness.signalled := by
  let draining : Harness := { harness with service := harness.service.signalDrains }
  let refusing : Harness := { draining with service := draining.service.signalRefuses }
  have hseen : draining.service.seen = none := Service.resends_requestDrain.seen.trans hnone
  have hstill : draining.service.accepting = true :=
    Service.resends_requestDrain.accepting.trans hset
  have hwaits : ¬ draining.Waits := fun hwaits => by cases hseen.symm.trans hwaits
  have hdrains : Timely harness draining :=
    ⟨fun _ hcleared => (by cases hstill.symm.trans hcleared), fun _ _ => hseen⟩
  have hrefuses : Timely draining refusing := ⟨fun _ _ => hwaits, fun _ _ => hseen⟩
  have hresumes : Timely refusing harness.signalled := ⟨nofun, fun _ _ => hseen⟩
  have hfirst : Step ext harness draining := .moves (.signalDrains h)
  have hsecond : Step ext draining refusing := .moves (.signalRefuses rfl)
  have hthird : Step ext refusing harness.signalled := .moves (.signalResumes rfl)
  exact ((ReflTransGen.single ⟨hfirst, hdrains⟩).tail ⟨hsecond, hrefuses⟩).tail ⟨hthird, hresumes⟩

/-! ## A signal that wakes -/

/-- A claim request is on its way, and no signal has come. -/
def claiming (harness : Harness) : Bool :=
  harness.worker.pending.any WorkerRequest.claims && harness.service.accepting &&
    harness.service.seen.isNone && decide (harness.service.signal = .awaited)

def polling : Showing claiming :=
  ⟨(start Sample.ext Sample.deployment).settled, by decide +kernel⟩

theorem polling_worker_is_not_blocked : ¬ polling.1.signalled.Blocked := by
  have hclaiming := polling.2
  simp only [claiming, Bool.and_eq_true, Option.isNone_iff_eq_none, decide_eq_true_eq] at hclaiming
  obtain ⟨⟨⟨_, hset⟩, hnone⟩, hsignal⟩ := hclaiming
  have hsettled : TimelyRuns Sample.ext (start Sample.ext Sample.deployment) polling.1 :=
    runs_settled
  exact (shutdown_blocks_untimely
    (hsettled.trans (timelyRuns_signalled hsignal hset hnone))).1

/-! ## A drained worker -/

/-- The drain was requested before the worker looked. -/
def drainedEarly : Harness :=
  let harness := start Sample.ext Sample.deployment
  { harness with service := harness.service.requestDrain }

/-- The worker has found itself drained, and no signal has come. -/
def resting (harness : Harness) : Bool :=
  harness.worker.pending.any (fun request => request.waitsForChange .drained) &&
    decide (harness.service.drain = .drained) && harness.service.seen.isNone &&
    decide (harness.service.signal = .awaited)

def drained : Showing resting := ⟨drainedEarly.settled, by decide +kernel⟩

/-- The worker has subscribed to the drain state. -/
def subscribed (harness : Harness) : Harness :=
  { harness with service := { harness.service with seen := some harness.service.version } }

theorem runs_subscribed {observed : WorkerDrainState}
    (hrequest : harness.Requests (.drainChanged observed))
    (hdrain : harness.service.drain = observed) (hnone : harness.service.seen = none) :
    Runs ext harness harness.subscribed := by
  obtain ⟨worker, chronicle, service⟩ := harness
  obtain ⟨next, rfl⟩ := hrequest
  exact ReflTransGen.single (.subscribe hnone hdrain)

theorem TimelyRuns.runs (h : TimelyRuns ext harness after) : Runs ext harness after := by
  unfold TimelyRuns at h
  exact h.lift id fun _ _ hstep => hstep.1

/-- A worker that is drained when the signal comes waits for a change of the drain state, and no
change comes. -/
theorem drained_worker_is_blocked :
    ∃ ext harness, Reachable ext harness ∧ harness.service.signal = .handled ∧ harness.Blocked := by
  have hresting := drained.2
  simp only [resting, Bool.and_eq_true, Option.isNone_iff_eq_none, decide_eq_true_eq] at hresting
  obtain ⟨⟨⟨hpending, hdrain⟩, hnone⟩, hsignal⟩ := hresting
  obtain ⟨request, hworker, hwaits⟩ := Option.any_eq_true _ _ |>.mp hpending
  have hrequest : drained.1.Requests (.drainChanged .drained) := by
    cases request with
    | drainChanged observed =>
        cases (of_decide_eq_true hwaits : observed = .drained)
        exact Program.pending_eq_some hworker
    | _ => cases hwaits
  have hdrained : Reachable Sample.ext drained.1 := by
    have hearly : Step Sample.ext (start Sample.ext Sample.deployment) drainedEarly :=
      .moves .drainRequested
    exact ⟨Sample.deployment, (ReflTransGen.single hearly).trans runs_settled.runs⟩
  obtain ⟨deployment, hruns⟩ := hdrained
  refine ⟨Sample.ext, drained.1.subscribed.signalled, ⟨deployment, ?_⟩, rfl, rfl, Or.inl ⟨?_, ?_⟩⟩
  · exact (hruns.trans (runs_subscribed hrequest hdrain hnone)).trans (runs_signalled hsignal)
  · exact ⟨_, hrequest⟩
  · -- the drain request of the signal changes nothing
    have hsame : drained.1.subscribed.service.requestDrain = drained.1.subscribed.service := by
      have hother : ¬ drained.1.subscribed.service.drain = .accepting := by
        show ¬ drained.1.service.drain = .accepting
        rw [hdrain]
        decide
      exact if_neg hother
    show drained.1.subscribed.service.requestDrain.seen =
      some drained.1.subscribed.service.requestDrain.version
    rw [hsame]
    rfl

end Harness

end PackageHarness
