/-
# PackageHarness.Guarantees.Wakeups — how a worker gets past a hold.

A worker that stands down because of a hold looks for the hold once more before it waits for the
operator. If the operator has cleared it by then, there is nothing to wait for, and the worker ends.
Where the hold is still there at that moment, the worker waits and recovers, whatever operators do
before and after.
-/
import Mathlib.Data.List.Infix
import PackageHarness.System.Life

namespace PackageHarness

open Interaction Relation

/-! ## Operators at any moment -/

/-- Part of a recovery action: its handler replaces the stored record by a change of the copy that
it has read, or wakes the worker. -/
inductive World.Attended (world : World) : World → Prop
  | update {action : RecoveryAction} {copy changed : RunRecord} {answer : Except StoreError Unit}
      {ledger : Ledger} :
      action.apply copy = .ok changed → world.ledger.store.Saves changed answer ledger.store →
      ledger.preflight = world.ledger.preflight →
      Attended world { world with ledger := ledger }
  | resume : Attended world { world with process := { world.process with recoveryPermit := true } }

/-- Operators who act at any moment, in any order with the worker's steps. -/
def operators : Company where
  surroundings := unattended noDefect
  outside := fun _ world after => world.Attended after ∨ world.Stirs after

/-- Some job is on hold. -/
def Ledger.HasHold (ledger : Ledger) : Prop :=
  ∃ run record, ledger.store run = some record ∧ record.requiresWorkerAttention = true ∧
    record.worker.manualRecoveryKind.isSome = true

/-! ## The reaction to a hold -/

/-- What the worker asks once it has become not ready because of a hold. -/
def reaction : List WorkerRequest :=
  [.accepting, .loadAll, .recoveryWait, .accepting, .loadAll]

/-- The flag is set, and the store answers. -/
def Favourable (x : Exchange WorkerRequest WorkerRequest.Answer) : Prop :=
  (∀ flag, x = ⟨.accepting, flag⟩ → flag = true) ∧
    ∀ error, x ≠ ⟨.loadAll, .error error⟩

namespace Life

/-- As long as the answers are favourable, a worker that has failed on a hold goes on: it looks at
the flag and for the hold, waits, looks at the flag again and recovers. -/
def Survives (life : Life) : Prop :=
  ∀ after reason before, life.chronicle = after ++ ⟨.setNotReady reason, ()⟩ :: before →
    Chronicle.place before = .holding → (∀ x ∈ after, Favourable x) → after.length < 5 →
    life.worker ≠ .pure () ∧
      ∀ request, life.Requests request → reaction[after.length]? = some request

/-- In this step the worker does not miss the hold that it looks for. -/
def SeesHold (before after : Life) : Prop :=
  ∀ records, after.chronicle = ⟨.loadAll, .ok records⟩ :: before.chronicle →
    before.chronicle.place = .alert true → before.world.ledger.HasHold

/-- The runs in which the worker misses no hold. -/
def SeeingRuns (ext : Externals) : Life → Life → Prop :=
  ReflTransGen fun before after => Step ext operators before after ∧ SeesHold before after

end Life

/-! ## Places on the way -/

/-- Where the worker stands after so many favourable answers. -/
def reactionPlace : Nat → Place
  | 0 => .noted true
  | 1 => .alert true
  | 2 => .waiting
  | 3 => .resumed
  | _ => .recovering

section Reaction

variable {t : Chronicle} {x : Exchange WorkerRequest WorkerRequest.Answer} {n : Nat}

theorem reaction_next (hplace : t.place = reactionPlace n) (hn : n < 4) (hfits : t.Fits x.request)
    (hfavourable : Favourable x) (hheld : Chronicle.place (x :: t) ≠ .unheld true) :
    Chronicle.place (x :: t) = reactionPlace (n + 1) := by
  obtain ⟨asked, answer⟩ := x
  have hallowed := hfits.allowed
  rw [hplace] at hallowed
  have hnext : Chronicle.place (⟨asked, answer⟩ :: t) = (reactionPlace n).next asked answer := by
    rw [← hplace]
    rfl
  rw [hnext] at hheld ⊢
  obtain rfl | rfl | rfl | rfl : n = 0 ∨ n = 1 ∨ n = 2 ∨ n = 3 := by omega
  · cases hallowed
    cases hfavourable.1 answer rfl
    rfl
  · rcases hallowed with rfl | ⟨hnever, _⟩
    · rcases answer with error | records
      · exact absurd rfl (hfavourable.2 error)
      · have hlisted : (reactionPlace 1).next .loadAll (.ok records) =
            if Worker.hasManualHold records then .waiting else .unheld true := rfl
        rw [hlisted] at hheld ⊢
        by_cases hhold : Worker.hasManualHold records = true
        · simp [hhold, reactionPlace]
        · simp [hhold] at hheld
    · cases hnever
  · cases hallowed
    rfl
  · cases hallowed
    cases hfavourable.1 answer rfl
    rfl

theorem reaction_place {after before : Chronicle} {reason : String}
    (hguarded : ∀ {x u}, x :: u <:+ t → Chronicle.Fits u x.request)
    (hheld : ∀ u, u <:+ t → Chronicle.place u ≠ .unheld true)
    (ht : t = after ++ ⟨.setNotReady reason, ()⟩ :: before)
    (hplace : Chronicle.place before = .holding) (hfavourable : ∀ x ∈ after, Favourable x)
    (hlength : after.length < 5) : t.place = reactionPlace after.length := by
  induction after generalizing t with
  | nil =>
      subst ht
      show Place.next (Chronicle.place before) (.setNotReady reason) () = _
      rw [hplace]
      rfl
  | cons x after ih =>
      subst ht
      have hsuffix : after ++ ⟨.setNotReady reason, ()⟩ :: before <:+
          x :: after ++ ⟨.setNotReady reason, ()⟩ :: before := List.suffix_cons _ _
      have hlater : ∀ x ∈ after, Favourable x :=
        fun x hx => hfavourable x (List.mem_cons_of_mem _ hx)
      have hbefore := ih (fun hu => hguarded (hu.trans hsuffix))
        (fun u hu => hheld u (hu.trans hsuffix)) rfl hlater (Nat.lt_of_succ_lt hlength)
      exact reaction_next hbefore (Nat.lt_of_succ_lt_succ hlength) (hguarded (List.suffix_refl _))
        (hfavourable x (List.mem_cons_self ..)) (hheld _ (List.suffix_refl _))

/-- There the worker may not end, and may ask only one thing. -/
theorem reactionPlace_forced (hn : n < 5) : ¬ (reactionPlace n).Final ∧
    ∀ request, (reactionPlace n).Allows request → reaction[n]? = some request := by
  obtain rfl | rfl | rfl | rfl | rfl : n = 0 ∨ n = 1 ∨ n = 2 ∨ n = 3 ∨ n = 4 := by omega
  · exact ⟨id, fun _ h => congrArg some h.symm⟩
  · refine ⟨id, fun _ h => ?_⟩
    rcases h with rfl | ⟨hnever, _⟩
    · rfl
    · cases hnever
  · exact ⟨id, fun _ h => congrArg some h.symm⟩
  · exact ⟨id, fun _ h => congrArg some h.symm⟩
  · exact ⟨id, fun _ h => congrArg some h.symm⟩

end Reaction

/-! ## Runs in which no hold is missed -/

/-- A complete listing shows whether some job is on hold. -/
theorem hasManualHold_iff {ledger : Ledger} {records : List RunRecord}
    (hlists : ledger.store.Lists records) :
    Worker.hasManualHold records = true ↔ ledger.HasHold := by
  unfold Worker.hasManualHold
  rw [List.any_eq_true]
  constructor
  · rintro ⟨record, hmem, hheld⟩
    rw [Bool.and_eq_true] at hheld
    exact ⟨record.id, record, hlists.mem.mp hmem, hheld⟩
  · rintro ⟨run, record, hrecord, hattention, hkind⟩
    refine ⟨record, hlists.mem_of_lookup hrecord, ?_⟩
    rw [hattention, hkind]
    rfl

/-- Only a listing without a hold leads there. -/
theorem Place.list_unheld {place : Place} {answer : Except StoreError (List RunRecord)}
    (h : place.list answer = .unheld true) :
    place = .alert true ∧ ∃ records, answer = .ok records ∧
      Worker.hasManualHold records = false := by
  unfold list at h
  split at h
  · next held records =>
      split at h
      · cases h
      · next hnone =>
          cases h
          exact ⟨rfl, records, rfl, by simpa using hnone⟩
  · cases h
  · split at h <;> cases h
  · cases h

theorem Place.next_unheld {place : Place} {request : WorkerRequest} {answer : request.Answer}
    (h : place.next request answer = .unheld true) :
    place = .alert true ∧ ∃ records,
      (⟨request, answer⟩ : Exchange WorkerRequest WorkerRequest.Answer) = ⟨.loadAll, .ok records⟩ ∧
        Worker.hasManualHold records = false := by
  cases request with
  | loadAll =>
      obtain ⟨halert, records, rfl, hmissed⟩ := list_unheld h
      exact ⟨halert, records, rfl, hmissed⟩
  | runner run request =>
      cases request with
      | save site record => cases site <;> rcases answer with error | _ <;> cases h
      | _ => cases h
  | accepting => cases answer <;> cases place <;> cases h
  | drainState => cases answer <;> cases h
  | stopHeartbeat => cases place <;> cases h
  | _ => cases h

namespace Life

variable {ext : Externals} {life after : Life} {deployment : Deployment}

theorem SeesHold.unmissed (hsees : SeesHold life after) (h : Step ext operators life after)
    (hunmissed : ∀ u, u <:+ life.chronicle → Chronicle.place u ≠ .unheld true) :
    ∀ u, u <:+ after.chronicle → Chronicle.place u ≠ .unheld true := by
  cases h with
  | @answer past deployment chronicle request next world answer world' hanswer =>
      obtain ⟨⟨hanswers, _⟩, _⟩ := hanswer
      intro u hu hplace
      rcases List.suffix_cons_iff.mp hu with rfl | hearlier
      · obtain ⟨halert, records, heq, hmissed⟩ := Place.next_unheld hplace
        cases heq
        have hhold := hsees records rfl halert
        rw [(hasManualHold_iff (hanswers.2 records rfl)).mpr hhold] at hmissed
        cases hmissed
      · exact hunmissed u hearlier hplace
  | drift hdrift => exact hunmissed
  | unroll => exact hunmissed
  | outside => exact hunmissed
  | restart =>
      intro u hu
      rw [List.eq_nil_of_suffix_nil hu]
      exact Place.noConfusion

theorem SeeingRuns.reachable (h : SeeingRuns ext (start ext deployment) life) :
    Reachable ext operators life := by
  unfold SeeingRuns at h
  exact ⟨deployment, h.lift id fun _ _ hstep => hstep.1⟩

theorem SeeingRuns.unmissed (h : SeeingRuns ext (start ext deployment) life) :
    ∀ u, u <:+ life.chronicle → Chronicle.place u ≠ .unheld true := by
  induction h with
  | refl =>
      intro u hu
      rw [List.eq_nil_of_suffix_nil hu]
      exact Place.noConfusion
  | tail _ hstep ih => exact hstep.2.unmissed hstep.1 ih

/-- In runs in which the worker misses no hold, it survives every hold. -/
theorem holds_are_survived (h : SeeingRuns ext (start ext deployment) life) : life.Survives := by
  intro after reason before hchronicle hplace hfavourable hlength
  have hreachable := h.reachable
  have hreaction : life.chronicle.place = reactionPlace after.length :=
    reaction_place (fun hu => Worker.run_placed.guarded hreachable.spoken hu) h.unmissed hchronicle
      hplace hfavourable hlength
  obtain ⟨hunfinished, hforced⟩ := reactionPlace_forced hlength
  constructor
  · intro hended
    have hfinal := hreachable.final hended
    rw [hreaction] at hfinal
    exact hunfinished hfinal
  · intro request hrequest
    have hallowed := (hreachable.fits hrequest).allowed
    rw [hreaction] at hallowed
    exact hforced request hallowed

theorem reply_admitted_operators {scenario : Scenario} :
    (World.reply scenario).Admitted operators.surroundings :=
  World.reply_admitted (Or.inr fun _ h => h)

/-- A step after which the worker does not stand where it has missed a hold. -/
theorem Step.seesHold (h : Step ext operators life after)
    (hheld : after.chronicle.place ≠ .unheld true) : SeesHold life after := by
  intro records hchronicle halert
  cases h with
  | @answer past deployment chronicle request next world answer world' hanswer =>
      cases hchronicle
      obtain ⟨⟨hanswers, _⟩, _⟩ := hanswer
      have hlists : world.ledger.store.Lists records := hanswers.2 records rfl
      have hlisted : Chronicle.place (⟨.loadAll, .ok records⟩ :: chronicle) =
          (Chronicle.place chronicle).list (.ok records) := rfl
      have hplace : Chronicle.place chronicle = .alert true := halert
      rw [← hasManualHold_iff hlists]
      by_contra hmissed
      apply hheld
      show Chronicle.place (⟨.loadAll, .ok records⟩ :: chronicle) = _
      rw [hlisted, hplace]
      simp [Place.list, hmissed]
  | drift => exact absurd hchronicle.symm (by simp)
  | unroll => exact absurd hchronicle.symm (by simp)
  | outside => exact absurd hchronicle.symm (by simp)
  | restart => cases hchronicle

theorem seeingRuns_replay {scenario : Scenario}
    (hadmitted : (World.reply scenario).Admitted operators.surroundings)
    (hheld : ∀ u, u <:+ (life.replay scenario).chronicle → Chronicle.place u ≠ .unheld true) :
    SeeingRuns ext life (life.replay scenario) := by
  obtain ⟨past, deployment, chronicle, worker, world⟩ := life
  have hreaches := Program.reaches_replay hadmitted.chronicled 2000 (worker, world, chronicle)
  -- the conversation only grows, so what its end has not come by, no step has
  have hsees : ∀ {c}, Interaction.Reaches (chronicled operators.surroundings)
      (worker, world, chronicle) c →
      (∀ u, u <:+ c.2.2 → Chronicle.place u ≠ .unheld true) →
      SeeingRuns ext ⟨past, deployment, chronicle, worker, world⟩
        ⟨past, deployment, c.2.2, c.1, c.2.1⟩ := by
    intro c hc
    induction hc with
    | refl => exact fun _ => .refl
    | @tail b c hrest hstep ih =>
        intro hc
        have hgrows : b.2.2 <:+ c.2.2 := (Reaches.recorded (.single hstep)).suffix
        have hearlier := ih fun u hu => hc u (hu.trans hgrows)
        have hlast : Step ext operators ⟨past, deployment, b.2.2, b.1, b.2.1⟩
            ⟨past, deployment, c.2.2, c.1, c.2.1⟩ := Step.of_machine hstep past deployment
        exact hearlier.tail ⟨hlast, hlast.seesHold (hc _ (List.suffix_refl _))⟩
  exact hsees hreaches hheld

/-- The worker waits for an operator and has never missed a hold. -/
def waitsUnmissed (life : Life) : Bool :=
  life.machine.awaits WorkerRequest.waits &&
    life.chronicle.tails.all fun t => Chronicle.place t ≠ .unheld true

/-- The cleanup of the sample job has failed, and no operator acts. -/
def unattendedHold : Showing waitsUnmissed :=
  ⟨(start Sample.ext Sample.deployment).replay (Sample.cleanupFails fun _ _ => false),
    by decide +kernel⟩

theorem unattended_hold_survived : unattendedHold.1.Survives := by
  obtain ⟨_, hunmissed⟩ := Bool.and_eq_true_iff.mp unattendedHold.2
  have hruns : SeeingRuns Sample.ext (start Sample.ext Sample.deployment) unattendedHold.1 := by
    refine seeingRuns_replay reply_admitted_operators fun u hu => ?_
    exact of_decide_eq_true (List.all_eq_true.mp hunmissed u ((List.mem_tails ..).mpr hu))
  exact holds_are_survived hruns

/-! ## A hold that is cleared too early -/

/-- An operator's action, from its write to the permit that wakes the worker. -/
def attended (action : RecoveryAction) (run : RunId) (life : Life) : Life :=
  match life.world.ledger.store run with
  | none => life
  | some record =>
      match action.apply record with
      | .error _ => life
      | .ok changed => { life with world :=
          ⟨life.world.ledger.withStore (life.world.ledger.store.write changed),
            { life.world.process with recoveryPermit := true }⟩ }

theorem runs_attended {action : RecoveryAction} {run : RunId} :
    Runs ext operators life (life.attended action run) := by
  unfold attended
  split
  · exact .refl
  · next record _ =>
      split
      · exact .refl
      · next changed happly =>
          let ledger := life.world.ledger.withStore (life.world.ledger.store.write changed)
          have hsaves : life.world.ledger.store.Saves changed (.ok ()) ledger.store := rfl
          have hupdate : World.Attended life.world { life.world with ledger := ledger } :=
            .update happly hsaves rfl
          exact ReflTransGen.head (.outside (Or.inl hupdate))
            (ReflTransGen.single (.outside (Or.inl .resume)))

/-- The worker has ended right after it looked for the hold that made it stand down. -/
def missesHold (life : Life) : Bool :=
  life.worker.value.isSome && match life.chronicle with
    | ⟨.loadAll, .ok _⟩ :: ⟨.accepting, true⟩ :: ⟨.setNotReady _, ()⟩ :: before =>
        decide (Chronicle.place before = .holding)
    | _ => false

/-- The cleanup of the sample job has failed, and the worker is about to become not ready. -/
def standingDown : Life :=
  (start Sample.ext Sample.deployment).replay (Sample.cleanupFails fun _ request =>
    request.standsDown)

/-- The operator acknowledges the cleanup there, and the worker goes on. -/
def cleared : Showing missesHold :=
  ⟨(standingDown.attended .continueAfterCleanup Sample.run).replay
    (Sample.cleanupFails fun _ _ => false), by decide +kernel⟩

/-- The operator clears a hold between the save that made it durable and the worker's look for it,
and the worker ends. -/
theorem cleared_hold_ends_worker :
    ∃ ext life, Reachable ext operators life ∧ ¬ life.Survives := by
  have hstanding : Reachable Sample.ext operators standingDown :=
    reachable_start.runs (runs_replay reply_admitted_operators)
  have hattended : Reachable Sample.ext operators
      (standingDown.attended .continueAfterCleanup Sample.run) := hstanding.runs runs_attended
  refine ⟨Sample.ext, cleared.1, hattended.runs (runs_replay reply_admitted_operators),
    fun hsurvives => ?_⟩
  obtain ⟨hended, hmissed⟩ := Bool.and_eq_true_iff.mp cleared.2
  obtain ⟨value, hvalue⟩ := Option.isSome_iff_exists.mp hended
  split at hmissed
  · next records reason before hchronicle =>
      have hplace : Chronicle.place before = .holding := by simpa using hmissed
      let answers : Chronicle := [⟨.loadAll, .ok records⟩, ⟨.accepting, true⟩]
      have hfavourable : ∀ x ∈ answers, Favourable x := by
        intro x hx
        simp only [answers, List.mem_cons, List.not_mem_nil, or_false] at hx
        rcases hx with rfl | rfl
        · exact ⟨nofun, nofun⟩
        · exact ⟨fun flag heq => by cases heq; rfl, nofun⟩
      have hlength : answers.length < 5 := by simp [answers]
      obtain ⟨hgoes, _⟩ := hsurvives answers reason before hchronicle hplace hfavourable hlength
      exact hgoes (Program.value_eq_some hvalue)
  · cases hmissed

end Life

end PackageHarness
