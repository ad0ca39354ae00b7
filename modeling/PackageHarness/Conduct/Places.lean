/-
# PackageHarness.Conduct.Places — where the worker stands between its requests.

A `Place` is what the last answers in a conversation of the worker say about its loops: whether it
is in a round of `waitUntilAccepting`, has to look for a hold, waits for an operator, or works.
`Place.Allows` is the control flow of the loops as an automaton, and the worker follows it whatever
it is answered.
-/
import PackageHarness.Conduct.Settling
import PackageHarness.Interaction.Transcript

namespace PackageHarness

open Interaction Routine

/-- The conversation of one worker process with its surroundings. -/
abbrev Chronicle := Transcript WorkerRequest WorkerRequest.Answer

/-! ## Places -/

inductive Place
  /-- The worker is about to recover. -/
  | recovering
  | working
  /-- A hold has just become durable, or recovery has just found one. -/
  | holding
  /-- Recovery has ended well. -/
  | ready
  /-- A round of the claim loop has begun. -/
  | polling
  /-- A round of `waitUntilAccepting` has seen the flag set; `parked` if the worker has marked
  itself drained in an earlier round. -/
  | checked (parked : Bool)
  | observed (parked : Bool) (state : WorkerDrainState)
  | marked
  | rested (parked : Bool)
  | admitted
  /-- The worker has become not ready; `held` if that is because of a hold. -/
  | noted (held : Bool)
  | alert (held : Bool)
  | waiting
  | resumed
  /-- The flag was seen cleared. -/
  | closed
  /-- The store could not be listed. -/
  | unread
  /-- The listing showed no hold. -/
  | unheld (held : Bool)
  deriving DecidableEq

namespace WorkerRequest

/-- Requests of recovery and settlement, and the pauses between two claims. -/
def Serves : WorkerRequest → Prop
  | runner _ _ | create _ | completeRaw _ _ | newProgress | startHeartbeat _ _ | stopHeartbeat
  | claimLost | now | sleep _ | idle _ => True
  | _ => False

/-- The same and what comes after them. -/
def Works : WorkerRequest → Prop
  | setNotReady _ | clearReadiness | accepting => True
  | request => request.Serves

/-- Starting and stopping the heartbeat. -/
def Beats : WorkerRequest → Prop
  | startHeartbeat _ _ | stopHeartbeat => True
  | _ => False

theorem Serves.works {request : WorkerRequest} (h : request.Serves) : request.Works := by
  cases request <;> first | exact h | trivial

end WorkerRequest

namespace Place

/-- The worker recovers or settles a job, or is between two rounds of the claim loop. -/
def Busy : Place → Prop
  | working | holding => True
  | _ => False

/-- The worker has marked itself drained and not left `waitUntilAccepting` since. -/
def parked : Place → Bool
  | marked => true
  | checked parked | observed parked _ | rested parked => parked
  | _ => false

/-- The flag was seen set. -/
def check : Place → Place
  | ready | polling => checked false
  | rested parked => checked parked
  | noted held => alert held
  | resumed => recovering
  | _ => polling

/-- The store was listed. -/
def list : Place → Except StoreError (List RunRecord) → Place
  | alert held, .ok records => if Worker.hasManualHold records then waiting else unheld held
  | alert _, .error _ => unread
  | _, .ok records =>
      match Worker.unresolvedJob records with
      | .held _ => holding
      | _ => working
  | _, .error _ => working

def next (place : Place) : (request : WorkerRequest) → request.Answer → Place
  | .runner _ (.save (.manualRecovery _) _), .ok _ => holding
  | .stopHeartbeat, _ => if place = holding then holding else working
  | .setNotReady _, _ => noted (place = holding)
  | .clearReadiness, _ => ready
  | .accepting, true => place.check
  | .accepting, false => closed
  | .drainState, .accepting => admitted
  | .drainState, state => observed place.parked state
  | .markDrained, _ => marked
  | .drainChanged _, _ => rested place.parked
  | .loadAll, answer => place.list answer
  | .recoveryWait, _ => resumed
  | _, _ => working

/-- The requests that the worker may make where it stands. -/
def Allows : Place → WorkerRequest → Prop
  | recovering, request => request = .loadAll
  | working, request | holding, request => request.Works
  | ready, request | polling, request | rested _, request | noted _, request
  | resumed, request => request = .accepting
  | checked _, request => request = .drainState
  | observed _ .draining, request => request = .markDrained
  | observed _ state, request => request = .drainChanged state
  | marked, request => request = .drainChanged .draining
  | admitted, request => request = .accepting ∨ request = .claim
  | alert held, request => request = .loadAll ∨ held = false ∧ request = .recoveryWait
  | waiting, request => request = .recoveryWait
  | closed, _ | unread, _ | unheld _, _ => False

/-- Where the worker may end. -/
def Final : Place → Prop
  | closed | unread | unheld _ | noted false => True
  | _ => False

end Place

/-! ## Conversations -/

namespace Chronicle

def place (t : Chronicle) : Place :=
  t.foldr (fun x place => place.next x.request x.answer) .recovering

/-- A heartbeat was started and not stopped since. -/
def beating (t : Chronicle) : Bool :=
  t.foldr (fun x beats => match x.request with
    | .startHeartbeat _ _ => true
    | .stopHeartbeat => false
    | _ => beats) false

/-- The request fits the place, and a worker that marks itself drained has no heartbeat. -/
structure Fits (t : Chronicle) (request : WorkerRequest) : Prop where
  allowed : t.place.Allows request
  still : request = .markDrained → t.beating = false

end Chronicle

/-- Conversations in which every request fits its place. -/
abbrev placed : Discipline WorkerRequest WorkerRequest.Answer Chronicle := recorded Chronicle.Fits

/-- The worker stands at this place, with or without a heartbeat. -/
def Stands (place : Place) (beats : Bool) (t : Chronicle) : Prop :=
  t.place = place ∧ t.beating = beats

/-- The worker stands at a place of this kind. -/
def Among (places : Place → Prop) (beats : Bool) (t : Chronicle) : Prop :=
  ∃ place, places place ∧ Stands place beats t

/-! ## Rules -/

section Rules

variable {t : Chronicle} {place : Place} {beats : Bool} {asked : WorkerRequest}

theorem Stands.answered (h : Stands place beats t) (hbeats : ¬ asked.Beats)
    (answer : asked.Answer) : Stands (place.next asked answer) beats (⟨asked, answer⟩ :: t) := by
  obtain ⟨rfl, rfl⟩ := h
  refine ⟨rfl, ?_⟩
  cases asked with
  | startHeartbeat runId claimToken => exact absurd trivial hbeats
  | stopHeartbeat => exact absurd trivial hbeats
  | _ => rfl

/-- One request of the worker, where it stands. -/
theorem Stands.request {α : Type} {Q : α → Chronicle → Prop} {next : asked.Answer → Worker α}
    (h : Stands place beats t) (hallows : place.Allows asked) (hbeats : ¬ asked.Beats)
    (hstill : asked = .markDrained → beats = false)
    (hnext : ∀ answer t', Stands (place.next asked answer) beats t' →
      Safe placed Q (next answer) t') :
    Safe placed Q (.request asked next) t :=
  Safe.exchange ⟨h.1.symm ▸ hallows, fun heq => h.2.trans (hstill heq)⟩ fun answer =>
    hnext answer _ (h.answered hbeats answer)

/-- One that neither concerns the heartbeat nor marks the worker drained. -/
theorem Stands.ask {α : Type} {Q : α → Chronicle → Prop} {next : asked.Answer → Worker α}
    (h : Stands place beats t) (hallows : place.Allows asked)
    (hasked : ¬ asked.Beats ∧ asked ≠ .markDrained)
    (hnext : ∀ answer t', Stands (place.next asked answer) beats t' →
      Safe placed Q (next answer) t') :
    Safe placed Q (.request asked next) t :=
  h.request hallows hasked.1 (fun heq => absurd heq hasked.2) hnext

theorem Stands.among {places : Place → Prop} (h : Stands place beats t) (hplace : places place) :
    Among places beats t := ⟨place, hplace, h⟩

/-- What the worker serves with keeps it busy. -/
theorem Place.Busy.next {place : Place} (h : place.Busy) (hserves : asked.Serves)
    (answer : asked.Answer) : (place.next asked answer).Busy := by
  cases asked with
  | runner run request =>
      cases request with
      | save site record => cases site <;> rcases answer with error | _ <;> trivial
      | _ => trivial
  | stopHeartbeat => cases place <;> first | exact h.elim | trivial
  | _ => first | exact hserves.elim | trivial

theorem Place.busy_of_recovered (records : List RunRecord) :
    (Place.next .recovering .loadAll (.ok records)).Busy := by
  show (list .recovering (.ok records)).Busy
  unfold list
  split
  · next heq _ => cases heq
  · next heq _ => cases heq
  · split <;> trivial
  · trivial

theorem Place.Busy.allows {place : Place} (h : place.Busy) (hworks : asked.Works) :
    place.Allows asked := by
  cases place <;> first | exact h.elim | exact hworks

/-- The worker is busy. -/
abbrev BusyAt (beats : Bool) (t : Chronicle) : Prop := Among Place.Busy beats t

theorem ask_busy (asked : WorkerRequest) (h : BusyAt beats t) (hserves : asked.Serves)
    (hbeats : ¬ asked.Beats) :
    Safe placed (fun _ => BusyAt beats) (Worker.ask asked) t := by
  obtain ⟨place, hbusy, hstands⟩ := h
  refine hstands.request (hbusy.allows hserves.works) hbeats ?_ fun answer t' h' =>
    Safe.pure trivial ⟨_, hbusy.next hserves answer, h'⟩
  rintro rfl
  exact hserves.elim

end Rules

namespace Worker

variable {ext : Externals} {deployment : Deployment} {config : WorkerConfig} {beats : Bool}
  {t : Chronicle}

/-! ## Settling under supervision -/

theorem busy_sustains : Sustains placed (BusyAt beats) := by
  intro request w hrequest _ hbusy
  cases request with
  | runner run asked => exact ask_busy (.runner run asked) hbusy trivial id
  | completeRaw runId body => exact ask_busy (.completeRaw runId body) hbusy trivial id
  | claimLost => exact ask_busy (.claimLost) hbusy trivial id
  | now => exact ask_busy (.now) hbusy trivial id
  | sleep duration => exact ask_busy (.sleep duration) hbusy trivial id
  | _ => exact hrequest.elim

/-- Whatever is done on behalf of a run keeps the worker busy. -/
theorem onBehalf_busy {α : Type} {run : RunId} {p : Runner α} (hbusy : BusyAt beats t) :
    Safe placed (fun _ => BusyAt beats) (onBehalf run p) t := by
  have hwithin : Within (fun request => ∃ asked, request = WorkerRequest.runner run asked)
      (fun _ => True) (onBehalf run p) := by
    refine Safe.translate (D := anything _) ?_
    exact fun _ _ _ => ⟨trivial, fun asked _ _ => ⟨asked, rfl⟩, fun _ _ => trivial⟩
  refine (hwithin.safe (BusyAt beats) trivial hbusy ?_ ?_ ?_).mono fun _ _ _ h => h.1
  · rintro _ w ⟨asked, rfl⟩ _ ⟨place, hplace, hstands⟩
    exact ⟨hstands.1.symm ▸ hplace.allows trivial, by simp⟩
  · rintro _ w answer after ⟨asked, rfl⟩ _ ⟨place, hplace, hstands⟩ hanswer
    cases hanswer
    have hserves : (WorkerRequest.runner run asked).Serves := trivial
    exact ⟨_, hplace.next hserves answer, hstands.answered id answer⟩
  · exact fun _ _ _ _ _ _ hdrift => hdrift.elim

theorem onBehalf_sustained {α : Type} {run : RunId} {p : Runner α} :
    Sustained placed (BusyAt beats) (.run (onBehalf run p)) :=
  Meets.run fun _ _ _ hbusy => onBehalf_busy hbusy

theorem recoverTargetIfRequired_busy (cause : RecoveryCause) :
    Sustained placed (BusyAt beats) (recoverTargetIfRequired config cause) := by
  have hpersist : ∀ site context, Sustained placed (BusyAt beats) (persist site context) :=
    fun _ _ => busy_sustains.persist
  refine .bind_read fun record => ?_
  split
  · exact hpersist _ _
  · split
    · exact .throw
    · refine .bind (.bind_read fun _ => .bind onBehalf_sustained fun outcome => ?_)
        fun packages => ?_
      · rcases outcome with error | packages
        · exact .throw
        · exact .pure
      · split
        · exact .throw
        · exact .bind onBehalf_sustained fun _ => .bind onBehalf_sustained fun _ =>
            .bind .update fun _ => hpersist _ _

theorem settleClaim_busy : Sustained placed (BusyAt beats) (settleClaim ext deployment) :=
  busy_sustains.settleClaim (P := fun _ => BusyAt beats) recoverTargetIfRequired_busy
    (fun _ _ _ hbusy => onBehalf_busy hbusy)
    (busy_sustains.unsupportedJobReason.weaken (fun _ _ _ h => h) (fun _ _ _ _ h => ⟨h, fun _ => h⟩)
      fun _ _ _ _ h => h)

theorem settleRecovered_busy : Sustained placed (BusyAt beats) (settleRecovered ext config) :=
  busy_sustains.settleRecovered recoverTargetIfRequired_busy

/-- A settlement under supervision starts and ends without a heartbeat. -/
theorem supervised_placed {record : RunRecord} {settle : Settle Unit}
    (hsettle : ∀ beats, Sustained placed (BusyAt beats) settle) (hbusy : BusyAt false t) :
    Safe placed (fun _ => BusyAt false) (supervised record settle) t := by
  unfold supervised
  split
  · next =>
    refine (hsettle false record t trivial hbusy).bind ?_
    rintro ⟨outcome, s⟩ t' _ hends
    rcases outcome with error | _
    · exact Safe.pure trivial hends
    · exact Safe.pure trivial hends
  · next claimToken _ =>
    obtain ⟨place, hplace, hstands⟩ := hbusy
    refine Safe.exchange ⟨hstands.1.symm ▸ hplace.allows trivial, by simp⟩ fun _ => ?_
    have hstarted : BusyAt true (⟨.startHeartbeat record.id claimToken, ()⟩ :: t) :=
      ⟨.working, trivial, rfl, rfl⟩
    refine (hsettle true record _ trivial hstarted).bind ?_
    rintro ⟨outcome, s⟩ t' _ hends
    have hbusy : BusyAt true t' := by
      rcases outcome with error | _
      · exact hends
      · exact hends
    obtain ⟨place, hplace, hstands⟩ := hbusy
    refine Safe.exchange ⟨hstands.1.symm ▸ hplace.allows trivial, by simp⟩ fun _ => ?_
    have hstops : WorkerRequest.stopHeartbeat.Serves := trivial
    refine Safe.pure trivial ⟨_, hplace.next hstops (), ?_, rfl⟩
    rw [← hstands.1]
    rfl

theorem processClaim_placed {job : ClaimedJob} (hbusy : BusyAt false t) :
    Safe placed (fun _ => BusyAt false) (processClaim ext deployment job) t := by
  refine (ask_busy .now hbusy trivial id).bind fun time t' _ hbusy => ?_
  refine (ask_busy (.create _) hbusy trivial id).bind fun outcome t' _ hbusy => ?_
  rcases outcome with error | _
  · exact Safe.pure trivial hbusy
  · exact (ask_busy .newProgress hbusy trivial id).bind fun _ t' _ hbusy =>
      supervised_placed (fun _ => settleClaim_busy) hbusy

/-! ## Recovery -/

theorem recover_placed (h : Stands .recovering false t) :
    Safe placed (fun _ => BusyAt false) (recover ext deployment) t := by
  refine h.ask rfl ⟨id, by simp⟩ fun answer t' h => ?_
  rcases answer with error | records
  · exact Safe.pure trivial (h.among trivial)
  have hbusy : BusyAt false t' := h.among (Place.busy_of_recovered records)
  dsimp only [Program.bind]
  split
  · exact Safe.pure trivial hbusy
  · exact Safe.pure trivial hbusy
  · exact Safe.pure trivial hbusy
  · refine (ask_busy .newProgress hbusy trivial id).bind fun _ t' _ hbusy => ?_
    refine (onBehalf_busy hbusy).bind fun _ t' _ hbusy => ?_
    exact supervised_placed (fun _ => settleRecovered_busy) hbusy

/-! ## Waiting -/

/-- Where the worker stands behind a wait for an operator. -/
def Woken (goesOn : Bool) (t : Chronicle) : Prop :=
  if goesOn then Stands .recovering false t else Among Place.Final false t

theorem awaitRecovery_placed {place : Place} (h : Stands place false t)
    (hallows : place.Allows .recoveryWait) : Safe placed Woken awaitRecovery t := by
  refine h.ask hallows ⟨id, by simp⟩ fun _ t' h => ?_
  refine h.ask rfl ⟨id, by simp⟩ fun accepting t' h => Safe.pure trivial ?_
  cases accepting with
  | true => exact h
  | false => exact h.among trivial

theorem waitForOperatorRecovery_placed {held : Bool} (h : Stands (.noted held) false t) :
    Safe placed Woken waitForOperatorRecovery t := by
  refine h.ask rfl ⟨id, by simp⟩ fun accepting t' h => ?_
  cases accepting with
  | false => exact Safe.pure trivial (h.among trivial)
  | true =>
      refine Stands.ask h (Or.inl rfl) ⟨id, by simp⟩ fun answer t' h => ?_
      rcases answer with error | records
      · exact Safe.pure trivial (h.among trivial)
      · have hlisted : Stands (if hasManualHold records then .waiting else .unheld held) false t' := h
        dsimp only [Program.bind]
        split
        · next hhold =>
            rw [if_pos hhold] at hlisted
            exact awaitRecovery_placed hlisted rfl
        · next hhold =>
            rw [if_neg hhold] at hlisted
            exact Safe.pure trivial (hlisted.among trivial)

theorem standDown_placed {reason : String} (hbusy : BusyAt false t) :
    Safe placed Woken (standDown ext reason) t := by
  obtain ⟨place, hplace, hstands⟩ := hbusy
  exact hstands.ask (hplace.allows trivial) ⟨id, by simp⟩ fun _ t' h =>
    waitForOperatorRecovery_placed h

/-- Where the worker stands when a lifetime ends. -/
def Ended (ending : Ending) (t : Chronicle) : Prop :=
  match ending with
  | .resume => Stands .recovering false t
  | .stop => Among Place.Final false t

theorem ended_of_woken {goesOn : Bool} (h : Woken goesOn t) : Ended (.ofResumed goesOn) t := by
  cases goesOn <;> exact h

theorem awaitCoordinatorRecovery_placed (h : Stands .working false t) :
    Safe placed Ended (awaitCoordinatorRecovery ext) t := by
  refine h.ask trivial ⟨id, by simp⟩ fun _ t' h => ?_
  refine Stands.ask h rfl ⟨id, by simp⟩ fun accepting t' h => ?_
  cases accepting with
  | false => exact Safe.pure trivial (h.among trivial)
  | true =>
      exact (awaitRecovery_placed h (Or.inr ⟨rfl, rfl⟩)).bind fun goesOn t' _ hwoken =>
        Safe.pure trivial (ended_of_woken hwoken)

theorem giveUp_placed {reason : String} (h : Stands .working false t) :
    Safe placed Ended (giveUp ext reason) t :=
  h.ask trivial ⟨id, by simp⟩ fun _ t' h => Safe.pure trivial (h.among trivial)

/-! ## The drain -/

/-- Where a round of `waitUntilAccepting` may begin. -/
def BeforeRound (t : Chronicle) : Prop :=
  ∃ place, (place = .ready ∨ place = .polling ∨ ∃ parked, place = .rested parked) ∧
    Stands place false t

/-- Where the worker stands behind `waitUntilAccepting`. -/
def Admitted (accepting : Bool) (t : Chronicle) : Prop :=
  if accepting then Stands .admitted false t else Among Place.Final false t

theorem drainRound_placed (h : BeforeRound t) :
    Safe placed (roundEnds (fun _ => BeforeRound) Admitted) drainRound t := by
  obtain ⟨place, hplace, hstands⟩ := h
  have hallows : place.Allows .accepting := by
    rcases hplace with rfl | rfl | ⟨parked, rfl⟩ <;> rfl
  refine hstands.ask hallows ⟨id, by simp⟩ fun accepting t' h => ?_
  cases accepting with
  | false => exact Safe.pure trivial (h.among trivial)
  | true =>
      obtain ⟨parked, h⟩ : ∃ parked, Stands (.checked parked) false t' := by
        rcases hplace with rfl | rfl | ⟨parked, rfl⟩
        · exact ⟨false, h⟩
        · exact ⟨false, h⟩
        · exact ⟨parked, h⟩
      refine h.ask rfl ⟨id, by simp⟩ fun state t' h => ?_
      cases state with
      | accepting => exact Safe.pure trivial h
      | draining =>
          refine h.request rfl id (fun _ => rfl) fun _ t' h => ?_
          refine h.ask rfl ⟨id, by simp⟩ fun _ t' h => ?_
          exact Safe.pure trivial ⟨_, Or.inr (Or.inr ⟨true, rfl⟩), h⟩
      | drained =>
          refine h.ask rfl ⟨id, by simp⟩ fun _ t' h => ?_
          exact Safe.pure trivial ⟨_, Or.inr (Or.inr ⟨parked, rfl⟩), h⟩

theorem waitUntilAccepting_placed (h : BeforeRound t) :
    Safe placed Admitted waitUntilAccepting t := by
  refine Safe.loop (fun _ => BeforeRound) trivial h fun _ t' _ h => ?_
  refine (drainRound_placed h).mono fun ending t' _ hends => ?_
  rcases ending with _ | accepting
  · exact hends
  · exact Safe.pure trivial hends

/-! ## The loops -/

/-- Where a round of the claim loop may begin. -/
def BeforeClaim (t : Chronicle) : Prop :=
  ∃ place, (place = .admitted ∨ place.Busy) ∧ Stands place false t

theorem beforeClaim_of_busy (h : BusyAt false t) : BeforeClaim t := by
  obtain ⟨place, hplace, hstands⟩ := h
  exact ⟨place, Or.inr hplace, hstands⟩

theorem claimRound_placed {attempt : Nat} (h : Stands .admitted false t) :
    Safe placed (roundEnds (fun _ => BeforeClaim) Ended) (claimRound ext deployment attempt) t := by
  refine h.ask (Or.inr rfl) ⟨id, by simp⟩ fun answer t' h => ?_
  have hbusy : BusyAt false t' := h.among trivial
  dsimp only [Program.bind]
  split
  · exact (ask_busy (.idle _) hbusy trivial id).bind fun _ t' _ hbusy =>
      Safe.pure trivial (beforeClaim_of_busy hbusy)
  · next job =>
      refine (processClaim_placed hbusy).bind fun outcome t' _ hbusy => ?_
      rcases outcome with error | _
      · exact (standDown_placed hbusy).bind fun goesOn t' _ hwoken =>
          Safe.pure trivial (ended_of_woken hwoken)
      · exact Safe.pure trivial (beforeClaim_of_busy hbusy)
  · exact (giveUp_placed h).bind fun _ _ _ hended => Safe.pure trivial hended
  · exact (awaitCoordinatorRecovery_placed h).bind fun _ _ _ hended => Safe.pure trivial hended
  · exact (ask_busy (.sleep _) hbusy trivial id).bind fun _ t' _ hbusy =>
      Safe.pure trivial (beforeClaim_of_busy hbusy)
  · exact (giveUp_placed h).bind fun _ _ _ hended => Safe.pure trivial hended

theorem pollRound_placed {attempt : Nat} (h : BeforeClaim t) :
    Safe placed (roundEnds (fun _ => BeforeClaim) Ended) (pollRound ext deployment attempt) t := by
  obtain ⟨place, hplace, hstands⟩ := h
  have hallows : place.Allows .accepting := by
    rcases hplace with rfl | hbusy
    · exact Or.inl rfl
    · exact hbusy.allows trivial
  refine hstands.ask hallows ⟨id, by simp⟩ fun accepting t' h => ?_
  cases accepting with
  | false => exact Safe.pure trivial (h.among trivial)
  | true =>
      have hpolling : Stands .polling false t' := by
        rcases hplace with rfl | hbusy
        · exact h
        · cases place <;> first | exact hbusy.elim | exact h
      refine (waitUntilAccepting_placed ⟨_, Or.inr (Or.inl rfl), hpolling⟩).bind ?_
      intro accepting t' _ hadmitted
      cases accepting with
      | true => exact claimRound_placed hadmitted
      | false => exact Safe.pure trivial hadmitted

theorem poll_placed (h : BeforeClaim t) : Safe placed Ended (poll ext deployment) t := by
  refine Safe.loop (fun _ => BeforeClaim) trivial h fun attempt t' _ h => ?_
  refine (pollRound_placed h).mono fun ending t' _ hends => ?_
  rcases ending with attempt | ending
  · exact hends
  · exact Safe.pure trivial hends

theorem lifetime_placed (h : Stands .recovering false t) :
    Safe placed Ended (lifetime ext deployment) t := by
  refine (recover_placed h).bind fun outcome t' _ hbusy => ?_
  rcases outcome with error | _
  · exact (standDown_placed hbusy).bind fun goesOn t' _ hwoken =>
      Safe.pure trivial (ended_of_woken hwoken)
  · obtain ⟨place, hplace, hstands⟩ := hbusy
    refine hstands.ask (hplace.allows trivial) ⟨id, by simp⟩ fun _ t' h => ?_
    refine (waitUntilAccepting_placed ⟨_, Or.inl rfl, h⟩).bind fun accepting t' _ hadmitted => ?_
    cases accepting with
    | true => exact poll_placed ⟨_, Or.inl rfl, hadmitted⟩
    | false => exact Safe.pure trivial hadmitted

/-- The whole worker keeps to its places, whatever it is answered. -/
theorem run_placed :
    Safe placed (fun _ => Among Place.Final false) (run ext deployment) [] := by
  refine Safe.loop (fun _ => Stands .recovering false) trivial ⟨rfl, rfl⟩ fun _ t' _ h => ?_
  refine (lifetime_placed h).bind fun ending t' _ hended => ?_
  cases ending with
  | resume => exact Safe.pure trivial hended
  | stop => exact Safe.pure trivial (Safe.pure trivial hended)

end Worker

end PackageHarness
