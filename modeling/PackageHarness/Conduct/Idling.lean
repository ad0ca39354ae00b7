/-
# PackageHarness.Conduct.Idling — the worker between its jobs.

Between two jobs the worker looks at its cells, loads its records, claims, sleeps and waits. Where a
discipline admits these requests at any time, the whole worker follows it as soon as the recovery of
a job and the processing of a claim do.
-/
import PackageHarness.Worker.Loop

namespace PackageHarness

open Interaction

/-- Requests that the worker makes while it has no job. -/
def WorkerRequest.Idles : WorkerRequest → Prop
  | loadAll | claim | setNotReady _ | clearReadiness | sleep _ | idle _ | accepting | drainState
  | markDrained | drainChanged _ | recoveryWait => True
  | _ => False

namespace Worker

section Idling

variable {W α β : Type} (D : Discipline WorkerRequest WorkerRequest.Answer W)

/-- Code that may run anywhere. -/
abbrev Free (p : Worker α) : Prop := ∀ w, D.inv w → Safe D (fun _ _ => True) p w

/-- What the worker does without a job is admitted at any time. -/
def AdmitsIdling : Prop := ∀ {request : WorkerRequest} {w : W}, request.Idles → D.inv w →
  D.guard w request

variable {D} {ext : Externals} {deployment : Deployment}

theorem free_pure {a : α} : Free D (.pure a : Worker α) := fun _ hinv => Safe.pure hinv trivial

theorem free_ask {request : WorkerRequest} {next : request.Answer → Worker α}
    (hguard : ∀ w, D.inv w → D.guard w request) (hnext : ∀ answer, Free D (next answer)) :
    Free D (.request request next) :=
  fun _ hinv => Safe.request (fun _ => True) hinv trivial (fun _ _ _ _ _ => trivial)
    (fun w hinv _ => hguard w hinv) fun _ answer after _ _ _ hinv => hnext answer after hinv

theorem free_bind {p : Worker α} {f : α → Worker β} (hp : Free D p) (hf : ∀ a, Free D (f a)) :
    Free D (p.bind f) :=
  fun w hinv => (hp w hinv).bind fun a after hinv _ => hf a after hinv

theorem free_loop {σ β : Type} {body : σ → Worker (σ ⊕ β)} {s : σ} {next : β → Worker α}
    (hbody : ∀ s, Free D (body s)) (hnext : ∀ b, Free D (next b)) :
    Free D (.loop body s next) := by
  intro w hinv
  refine Safe.loop (fun _ _ => True) hinv trivial fun s after hinv _ => ?_
  refine (hbody s after hinv).mono fun ending later hinv _ => ?_
  cases ending with
  | inl s => trivial
  | inr b => exact hnext b later hinv

variable (hidle : AdmitsIdling D)

include hidle

theorem AdmitsIdling.ask {request : WorkerRequest} {next : request.Answer → Worker α}
    (hrequest : request.Idles) (hnext : ∀ answer, Free D (next answer)) :
    Free D (.request request next) :=
  free_ask (fun _ hinv => hidle hrequest hinv) hnext

theorem AdmitsIdling.awaitRecovery : Free D awaitRecovery :=
  hidle.ask trivial fun _ => hidle.ask trivial fun _ => free_pure

theorem AdmitsIdling.waitForOperatorRecovery : Free D waitForOperatorRecovery := by
  refine hidle.ask trivial fun accepting => ?_
  cases accepting with
  | false => exact free_pure
  | true =>
      refine hidle.ask trivial fun answer => ?_
      rcases answer with error | records
      · exact free_pure
      · dsimp only [Program.bind]
        split
        · exact hidle.awaitRecovery
        · exact free_pure

theorem AdmitsIdling.standDown {reason : String} : Free D (standDown ext reason) :=
  hidle.ask trivial fun _ => hidle.waitForOperatorRecovery

theorem AdmitsIdling.awaitCoordinatorRecovery : Free D (awaitCoordinatorRecovery ext) := by
  refine hidle.ask trivial fun _ => ?_
  refine hidle.ask trivial fun accepting => ?_
  cases accepting with
  | false => exact free_pure
  | true =>
      show Free D (Worker.awaitRecovery.bind _)
      exact free_bind hidle.awaitRecovery fun _ => free_pure

theorem AdmitsIdling.giveUp {reason : String} : Free D (giveUp ext reason) :=
  hidle.ask trivial fun _ => free_pure

theorem AdmitsIdling.drainRound : Free D drainRound := by
  refine hidle.ask trivial fun accepting => ?_
  cases accepting with
  | false => exact free_pure
  | true =>
      refine hidle.ask trivial fun state => ?_
      cases state with
      | accepting => exact free_pure
      | draining => exact hidle.ask trivial fun _ => hidle.ask trivial fun _ => free_pure
      | drained => exact hidle.ask trivial fun _ => free_pure

theorem AdmitsIdling.waitUntilAccepting : Free D waitUntilAccepting :=
  free_loop (fun _ => hidle.drainRound) fun _ => free_pure

/-! ## The loops around the jobs -/

/-- A claim that brings a job continues with the processing of that job. -/
theorem AdmitsIdling.claimRound {attempt : Nat}
    (hprocess : ∀ w job after, D.answer w .claim (.ok (.claimed job)) after → D.inv after →
      Safe D (fun _ _ => True) (processClaim ext deployment job) after) :
    Free D (claimRound ext deployment attempt) := by
  intro w hinv
  refine Safe.request (fun _ => True) hinv trivial (fun _ _ _ _ _ => trivial)
    (fun _ hinv _ => hidle trivial hinv) fun w answer after _ _ hanswer hinv => ?_
  dsimp only [Program.bind]
  split
  · refine hidle.ask ?_ (fun _ => free_pure) after hinv
    trivial
  · next job =>
      refine (hprocess w job after hanswer hinv).bind fun outcome later hinv _ => ?_
      rcases outcome with error | _
      · exact free_bind hidle.standDown (fun _ => free_pure) later hinv
      · exact Safe.pure hinv trivial
  · exact free_bind hidle.giveUp (fun _ => free_pure) after hinv
  · exact free_bind hidle.awaitCoordinatorRecovery (fun _ => free_pure) after hinv
  · refine hidle.ask ?_ (fun _ => free_pure) after hinv
    trivial
  · exact free_bind hidle.giveUp (fun _ => free_pure) after hinv

theorem AdmitsIdling.pollRound {attempt : Nat}
    (hclaim : Free D (Worker.claimRound ext deployment attempt)) :
    Free D (pollRound ext deployment attempt) := by
  refine hidle.ask trivial fun accepting => ?_
  cases accepting with
  | false => exact free_pure
  | true =>
      show Free D (Worker.waitUntilAccepting.bind _)
      refine free_bind hidle.waitUntilAccepting fun accepting => ?_
      cases accepting with
      | true => exact hclaim
      | false => exact free_pure

theorem AdmitsIdling.lifetime (hrecover : Free D (recover ext deployment))
    (hclaim : ∀ attempt, Free D (Worker.claimRound ext deployment attempt)) :
    Free D (lifetime ext deployment) := by
  refine free_bind hrecover fun outcome => ?_
  rcases outcome with error | _
  · exact free_bind hidle.standDown fun _ => free_pure
  · refine hidle.ask trivial fun _ => ?_
    show Free D (Worker.waitUntilAccepting.bind _)
    refine free_bind hidle.waitUntilAccepting fun accepting => ?_
    cases accepting with
    | true => exact free_loop (fun _ => hidle.pollRound (hclaim _)) fun _ => free_pure
    | false => exact free_pure

/-- The whole worker task. -/
theorem AdmitsIdling.run (hrecover : Free D (recover ext deployment))
    (hclaim : ∀ attempt, Free D (Worker.claimRound ext deployment attempt)) :
    Free D (run ext deployment) :=
  free_loop (fun _ => free_bind (hidle.lifetime hrecover hclaim) fun _ => free_pure) fun _ =>
    free_pure

end Idling

end Worker

end PackageHarness
