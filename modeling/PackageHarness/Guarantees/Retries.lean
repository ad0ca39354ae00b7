/-
# PackageHarness.Guarantees.Retries — a mutation is never sent while an earlier one may be running.

The discipline of `retryMutation` is a guard on the request `send` that looks at the conversation so
far: there is room for another attempt, no outcome so far has left the mutation running, and the last
attempt has just failed in a way that may be retried and was not found to have taken effect. What is
returned is read off the end of the conversation.
-/
import PackageHarness.Dappmanager.Mutation
import PackageHarness.Interaction.Scripted

namespace PackageHarness

open Interaction Dappmanager

/-- A mutation's conversation, the latest exchange first. -/
abbrev Exchanges := Transcript MutationRequest MutationRequest.Answer

namespace Exchanges

/-- How often the operation was sent. -/
def sends : Exchanges → Nat
  | [] => 0
  | ⟨.send, _⟩ :: earlier => sends earlier + 1
  | _ :: earlier => sends earlier

/-- What the last send was answered. -/
def lastSend : Exchanges → Option (Except DappnodeMcpError Unit)
  | [] => none
  | ⟨.send, outcome⟩ :: _ => some outcome
  | _ :: earlier => lastSend earlier

/-- Whether a check after the last send has found the requested state. -/
def confirmed : Exchanges → Bool
  | [] => false
  | ⟨.send, _⟩ :: _ => false
  | ⟨.reconcile, reached⟩ :: earlier => reached || confirmed earlier
  | _ :: earlier => confirmed earlier

end Exchanges

/-- The error leaves open whether the mutation is still running. -/
def Unsettled (display : DappnodeMcpError → String) (error : DappnodeMcpError) : Prop :=
  isTimeout error = true ∨ operationInProgressError (display error) = true

/-- The latest send has failed, may be retried, and has not taken effect. -/
def JustFailed (display : DappnodeMcpError → String) (t : Exchanges) : Prop :=
  ∃ delay error earlier,
    t = ⟨.sleep delay, ()⟩ :: ⟨.reconcile, false⟩ :: ⟨.send, .error error⟩ :: earlier ∧
    retryableMutationError error = true ∧ ¬ Unsettled display error

/-- When the operation may be sent. -/
structure MaySend (display : DappnodeMcpError → String) (policy : MutationPolicy) (t : Exchanges) :
    Prop where
  room : t.sends < policy.mutationAttempts
  settled : ∀ error, ⟨.send, .error error⟩ ∈ t → ¬ Unsettled display error
  justFailed : t.sends = 0 ∨ JustFailed display t

/-- The result is success if the last send or a check after it says so, and otherwise what the last
send has failed with. -/
def Settles (result : Option (Except DappnodeMcpError Unit)) (t : Exchanges) : Prop :=
  ∃ returned last, result = some returned ∧ t.lastSend = some last ∧
    (returned = .ok () ↔ last = .ok () ∨ t.confirmed = true) ∧
    (returned ≠ .ok () → returned = last)

section

variable {display : DappnodeMcpError → String} {policy : MutationPolicy} {t : Exchanges}

/-- The guard of the mutation: only a send has to be allowed. -/
def sendsInTurn (display : DappnodeMcpError → String) (policy : MutationPolicy) (t : Exchanges)
    (request : MutationRequest) : Prop :=
  request = .send → MaySend display policy t

theorem settles_ok : Settles (some (.ok ())) (⟨.send, .ok ()⟩ :: t) :=
  ⟨.ok (), .ok (), rfl, rfl, ⟨fun _ => Or.inl rfl, fun _ => rfl⟩, fun h => absurd rfl h⟩

theorem settles_confirmed {last : Except DappnodeMcpError Unit} (hlast : t.lastSend = some last) :
    Settles (some (.ok ())) (⟨.reconcile, true⟩ :: t) :=
  ⟨.ok (), last, rfl, hlast, ⟨fun _ => Or.inr rfl, fun _ => rfl⟩, fun h => absurd rfl h⟩

theorem settles_error {error : DappnodeMcpError} (hlast : t.lastSend = some (.error error))
    (hopen : t.confirmed = false) : Settles (some (.error error)) t := by
  refine ⟨.error error, .error error, rfl, hlast, ⟨nofun, ?_⟩, fun _ => rfl⟩
  rintro (hok | hconfirmed)
  · cases hok
  · exact absurd (hopen.symm.trans hconfirmed) nofun

/-- Waiting sends nothing, and ends in accordance with the checks. -/
theorem awaitInProgress_safe {error : DappnodeMcpError}
    (hlast : t.lastSend = some (.error error)) (hopen : t.confirmed = false) :
    Safe (recorded (sendsInTurn display policy)) (fun returned t => Settles (some returned) t)
      (awaitInProgress policy error) t := by
  refine Safe.exchange nofun fun started => ?_
  -- every round leaves the last send as it is, and no check so far has succeeded
  refine Safe.loop
    (fun _ (t : Exchanges) => t.lastSend = some (.error error) ∧ t.confirmed = false) trivial
    ⟨hlast, hopen⟩ ?_
  rintro round t - ⟨hlast, hopen⟩
  refine Safe.exchange nofun fun reached => ?_
  cases reached with
  | true => exact Safe.pure trivial (Safe.pure trivial (settles_confirmed hlast))
  | false =>
      refine Safe.exchange nofun fun current => ?_
      show Safe _ _ (if _ then _ else _) _
      split
      · exact Safe.pure trivial (Safe.pure trivial (settles_error hlast hopen))
      · exact Safe.exchange nofun fun _ => Safe.pure trivial ⟨hlast, hopen⟩

/-- The attempts, from a conversation in which the operation may be sent. -/
theorem attemptMutation_safe (left attempt : Nat)
    (hleft : attempt + left = policy.mutationAttempts + 1)
    (hattempt : t.sends + 1 = attempt) (hsend : MaySend display policy t) :
    Safe (recorded (sendsInTurn display policy)) Settles
      (attemptMutation display policy left attempt) t := by
  induction left generalizing attempt t with
  | zero =>
      -- the loop is left before its attempts run out
      have hroom := hsend.room
      omega
  | succ left ih =>
      refine Safe.exchange (fun _ => hsend) fun outcome => ?_
      cases outcome with
      | ok _ => exact Safe.pure trivial settles_ok
      | error error =>
          show Safe _ _ (if _ then _ else _) _
          split
          · exact (awaitInProgress_safe rfl rfl).bind fun _ _ _ hsettles =>
              Safe.pure trivial hsettles
          · next hquiet =>
              split
              · exact (awaitInProgress_safe rfl rfl).bind fun _ _ _ hsettles =>
                  Safe.pure trivial hsettles
              · next hanswered =>
                  have hsettled : ¬ Unsettled display error := by
                    rintro (htimeout | hrunning)
                    · exact hanswered htimeout
                    · exact hquiet hrunning
                  split
                  · next hretry =>
                      refine Safe.exchange nofun fun reached => ?_
                      cases reached with
                      | true => exact Safe.pure trivial (settles_confirmed rfl)
                      | false =>
                          refine Safe.exchange nofun fun _ => ?_
                          refine ih (attempt + 1) (by omega) (congrArg (· + 1) hattempt) ?_
                          refine ⟨?_, ?_, Or.inr ⟨_, error, t, rfl, hretry.2, hsettled⟩⟩
                          · show t.sends + 1 < _
                            rw [hattempt]
                            exact hretry.1
                          · intro error' hmem
                            rcases List.mem_cons.mp hmem with hnow | hmem
                            · cases hnow
                            · rcases List.mem_cons.mp hmem with hnow | hmem
                              · cases hnow
                              · rcases List.mem_cons.mp hmem with hnow | hmem
                                · cases hnow
                                  exact hsettled
                                · exact hsend.settled error' hmem
                  · exact Safe.pure trivial (settles_error rfl rfl)

/-- Each send finds fewer than `bound` before it, so there are no more than that. -/
theorem sends_le {bound : Nat}
    (h : ∀ answer (earlier : Exchanges), ⟨.send, answer⟩ :: earlier <:+ t → earlier.sends < bound) :
    t.sends ≤ bound := by
  induction t with
  | nil => exact Nat.zero_le _
  | cons x t ih =>
      have hrest := ih fun answer earlier hsuffix =>
        h answer earlier (hsuffix.trans (List.suffix_cons x t))
      obtain ⟨request, answer⟩ := x
      cases request with
      | send => exact h answer t (List.suffix_refl _)
      | reconcile => exact hrest
      | instant => exact hrest
      | sleep duration => exact hrest

/-! ## It does return -/

/-- What a mutation meets, exchange by exchange: outcomes, checks, and how long each takes. -/
structure MutationCourse where
  outcomes : Nat → Except DappnodeMcpError Unit
  checks : Nat → Bool
  durations : Nat → Nat

/-- The time, and the number of exchanges behind it. -/
structure MutationClock where
  time : Nat := 0
  exchanges : Nat := 0

namespace MutationCourse

/-- The clock after one more exchange. -/
def passes (course : MutationCourse) (clock : MutationClock) : MutationClock where
  time := clock.time + course.durations clock.exchanges
  exchanges := clock.exchanges + 1

/-- Plays a course: a sleep takes as long as it says, and everything else as long as it does. -/
def script (course : MutationCourse) :
    Script MutationRequest MutationRequest.Answer MutationClock
  | clock, .send => some (course.outcomes clock.exchanges, course.passes clock)
  | clock, .reconcile => some (course.checks clock.exchanges, course.passes clock)
  | clock, .instant => some (clock.time, clock)
  | clock, .sleep duration => some ((), { clock with time := clock.time + duration })

end MutationCourse

variable {course : MutationCourse} {clock : MutationClock}

/-- The wait ends: each round that does not end it sleeps, and the timeout is not moved. -/
theorem awaitInProgress_returns (error : DappnodeMcpError) :
    Returns course.script (fun _ _ => True) (awaitInProgress policy error) clock := by
  refine Returns.request rfl ?_
  -- what is left of the timeout shrinks by one poll interval or more
  let left : Nat → Nat := fun time => policy.mutationTimeout - (time - clock.time)
  refine Returns.loop (fun _ later => clock.time ≤ later.time) (fun _ later => left later.time)
    ?_ (le_refl _)
  intro round later hlater
  have hpassed : later.time ≤ (course.passes later).time := Nat.le_add_right _ _
  refine Returns.request rfl ?_
  cases course.checks later.exchanges with
  | true => exact Returns.pure (Returns.pure trivial)
  | false =>
      refine Returns.request rfl ?_
      show Returns _ _ (if _ then _ else _) _
      split
      · exact Returns.pure (Returns.pure trivial)
      · next hopen =>
          refine Returns.request rfl (Returns.pure ⟨?_, ?_⟩)
          · show clock.time ≤ (course.passes later).time + 10000000000
            omega
          · have hshort : later.time - clock.time ≤ (course.passes later).time - clock.time :=
              Nat.sub_le_sub_right hpassed _
            refine Nat.sub_lt_sub_left (Nat.lt_of_le_of_lt hshort (Nat.lt_of_not_le hopen)) ?_
            show later.time - clock.time < (course.passes later).time + 10000000000 - clock.time
            omega

/-- However long the exchanges take, a mutation comes to its end. -/
theorem retryMutation_returns (display : DappnodeMcpError → String) (policy : MutationPolicy)
    (course : MutationCourse) :
    Returns course.script (fun _ _ => True) (retryMutation display policy) {} := by
  suffices key : ∀ left attempt clock, Returns course.script (fun _ _ => True)
      (attemptMutation display policy left attempt) clock from key _ _ _
  intro left
  induction left with
  | zero => exact fun _ _ => Returns.pure trivial
  | succ left ih =>
      intro attempt clock
      refine Returns.request rfl ?_
      cases course.outcomes clock.exchanges with
      | ok _ => exact Returns.pure trivial
      | error error =>
          have hwait : ∀ clock, Returns course.script (fun _ _ => True)
              ((awaitInProgress policy error).bind fun returned => .pure (some returned)) clock :=
            fun clock => (awaitInProgress_returns error).bind fun _ _ _ => Returns.pure trivial
          show Returns _ _ (if _ then _ else _) _
          split
          · exact hwait _
          · split
            · exact hwait _
            · split
              · refine Returns.request rfl ?_
                cases course.checks (course.passes clock).exchanges with
                | true => exact Returns.pure trivial
                | false => exact Returns.request rfl (ih _ _)
              · exact Returns.pure trivial

/-! ## The discipline -/

/-- Whatever the operation and the checks answer, and whatever the clock says: the operation is sent
only when it may be, as often as there are attempts at most, and what is returned is what the last
send and the checks after it say. Whatever it meets, something is returned. -/
theorem retryMutation_discipline (display : DappnodeMcpError → String) (policy : MutationPolicy)
    (hattempts : 1 ≤ policy.mutationAttempts)
    {rest : Mutation (Option (Except DappnodeMcpError Unit))} {t : Exchanges}
    (h : Reaches recording (retryMutation display policy, []) (rest, t)) :
    t.sends ≤ policy.mutationAttempts ∧
      (∀ answer earlier, ⟨.send, answer⟩ :: earlier <:+ t → MaySend display policy earlier) ∧
      (∀ next, rest = .request .send next → MaySend display policy t) ∧
      (∀ result, rest = .pure result → Settles result t) ∧
      ∀ course : MutationCourse,
        Returns course.script (fun _ _ => True) (retryMutation display policy) {} := by
  have hfirst : MaySend display policy [] := ⟨hattempts, nofun, Or.inl rfl⟩
  have hsafe : Safe (recorded (sendsInTurn display policy)) Settles
      (retryMutation display policy) [] :=
    attemptMutation_safe _ 1 (Nat.add_comm _ _) rfl hfirst
  have hguarded : ∀ answer earlier, ⟨.send, answer⟩ :: earlier <:+ t →
      MaySend display policy earlier := fun answer earlier hsuffix =>
    hsafe.guarded h hsuffix rfl
  have hobeys := hsafe.reaches h
  refine ⟨sends_le fun answer earlier hsuffix => (hguarded answer earlier hsuffix).room, hguarded,
    ?_, ?_, retryMutation_returns display policy⟩
  · exact fun next hpending => hobeys.obeys.2.1 _ next hpending rfl
  · exact fun result hended => hobeys.obeys.2.2 result hended

end

namespace Sample

/-- Three attempts, five seconds apart at first. -/
def patientPolicy : MutationPolicy := ⟨.ofMillis 1800000, 3, .ofMillis 5000⟩

def brokenConnection : DappnodeMcpError := .transport "connection reset by peer" ""

/-- The first send fails on the wire and was not applied; every later one succeeds. -/
def wireTrouble : Script MutationRequest MutationRequest.Answer Exchanges
  | t, .send =>
      let outcome := if t.sends = 0 then .error brokenConnection else .ok ()
      some (outcome, ⟨.send, outcome⟩ :: t)
  | t, .reconcile => some (false, ⟨.reconcile, false⟩ :: t)
  | t, .instant => some (0, ⟨.instant, (0 : Nat)⟩ :: t)
  | t, .sleep duration => some ((), ⟨.sleep duration, ()⟩ :: t)

theorem wireTrouble_admitted : wireTrouble.Admitted recording := by
  intro t request answer after h
  cases request with
  | send =>
      cases h
      exact ⟨t, .refl, rfl⟩
  | reconcile =>
      cases h
      exact ⟨t, .refl, rfl⟩
  | instant =>
      cases h
      exact ⟨t, .refl, rfl⟩
  | sleep duration =>
      cases h
      exact ⟨t, .refl, rfl⟩

def retried : Exchanges :=
  [⟨.send, .ok ()⟩, ⟨.sleep (.ofMillis 5000), ()⟩, ⟨.reconcile, false⟩,
    ⟨.send, .error brokenConnection⟩]

def wording (_ : DappnodeMcpError) : String :=
  "MCP transport failure: connection reset by peer"

theorem retried_runs : Reaches recording (retryMutation wording patientPolicy, [])
    (.pure (some (.ok ())), retried) :=
  Program.reaches_replay wireTrouble_admitted 5 (retryMutation wording patientPolicy, [])

end Sample

/-- A mutation that is sent twice was not found to have taken effect in between, and returns what
the second send has said. -/
theorem interrupted_mutation_is_resent :
    Sample.retried.sends ≤ 3 ∧ Settles (some (.ok ())) Sample.retried := by
  obtain ⟨hsends, -, -, hsettles, -⟩ := retryMutation_discipline _ Sample.patientPolicy (by decide)
    Sample.retried_runs
  exact ⟨hsends, hsettles _ rfl⟩

end PackageHarness
