/-
# PackageHarness.Conduct.Settling — what a settlement does besides executing and reconciling.

A settlement saves, delivers, looks at clocks and signals, and at two places hands the run to code
that touches packages. So an assertion that survives `Bookkeeping` survives the whole settlement,
provided that it survives these two places. The contracts here are the settlement's functions one by
one, for any discipline of the worker's requests.
-/
import PackageHarness.Worker.Loop

namespace PackageHarness

open Interaction Routine

/-- Requests of a settlement that neither execute the run nor reconcile its target. -/
def WorkerRequest.Bookkeeping : WorkerRequest → Prop
  | runner _ (.save _ _) | runner _ (.get _) => True
  | runner _ (.enter point) => point ≠ .runAlgorithm
  | runner _ (.pm (.listPackages purpose)) => purpose = .claimCheck
  | completeRaw _ _ | claimLost | now | sleep _ => True
  | _ => False

namespace Worker

section Settling

variable {W α β : Type} (D : Discipline WorkerRequest WorkerRequest.Answer W) (calm : W → Prop)

/-- Bookkeeping is admitted, and the assertion survives it. -/
def Sustains : Prop :=
  ∀ {request : WorkerRequest} {w : W}, request.Bookkeeping → D.inv w → calm w →
    Safe D (fun _ => calm) (ask request) w

/-- The assertion holds before and after the routine, whichever way it ends. -/
abbrev Sustained (m : Settle α) : Prop :=
  Meets D (fun _ => calm) m (fun _ _ => calm) (fun _ _ => calm)

variable {D calm} {ext : Externals} {deployment : Deployment} {config : WorkerConfig}

theorem Sustained.pure {a : α} : Sustained D calm (Pure.pure a) := Meets.pure fun _ _ _ h => h

theorem Sustained.throw {text : String} : Sustained D calm (.throw text : Settle α) :=
  Meets.throw fun _ _ _ h => h

theorem Sustained.update {f : RunRecord → RunRecord} : Sustained D calm (.update f) :=
  Meets.update fun _ _ _ h => h

theorem Sustained.bind {m : Settle α} {f : α → Settle β} (hm : Sustained D calm m)
    (hf : ∀ a, Sustained D calm (f a)) : Sustained D calm (m >>= f) := Meets.bind hm hf

theorem Sustained.bind_read {f : RunRecord → Settle β} (hf : ∀ r, Sustained D calm (f r)) :
    Sustained D calm (.read >>= f) := Meets.bind_read_any hf

theorem Sustained.iterate {body : Nat → Settle (Nat ⊕ α)} {n : Nat}
    (hbody : ∀ n, Sustained D calm (body n)) : Sustained D calm (.iterate body n) := by
  refine Meets.iterate (fun _ _ => calm) (fun _ _ _ h => h) fun n => ?_
  refine (hbody n).weaken (fun _ _ _ h => h) (fun r _ _ _ h => ?_) fun _ _ _ _ h => h
  cases r <;> exact h

variable (hsustains : Sustains D calm)

include hsustains

theorem Sustains.ask (request : WorkerRequest) (hrequest : request.Bookkeeping) :
    Sustained D calm (.run (ask request)) :=
  Meets.run fun _ _ hinv h => hsustains hrequest hinv h

theorem Sustains.onBehalf {run : RunId} (request : RunnerRequest)
    (hrequest : (WorkerRequest.runner run request).Bookkeeping) :
    Sustained D calm (.run (onBehalf run (Runner.ask request))) :=
  hsustains.ask _ hrequest

theorem Sustains.persist {site : SaveSite} {context : String} :
    Sustained D calm (persist site context) := by
  refine .bind_read fun record => .bind (hsustains.onBehalf (.save site record) trivial)
    fun outcome => ?_
  rcases outcome with error | _
  · exact .throw
  · exact .pure

theorem Sustains.listInventory {context : String} :
    Sustained D calm (listInventory .claimCheck context) := by
  refine .bind_read fun record => .bind
    (hsustains.onBehalf (.pm (.listPackages .claimCheck)) rfl) fun outcome => ?_
  rcases outcome with error | packages
  · exact .throw
  · exact .pure

theorem Sustains.mark {point : RunRecord → ProgramPoint} (hpoint : ∀ r, point r ≠ .runAlgorithm) :
    Sustained D calm (mark point) :=
  .bind_read fun record => hsustains.onBehalf (.enter (point record)) (hpoint record)

theorem Sustains.pause {kind : ManualRecoveryKind} {reason : String} :
    Sustained D calm (pause ext kind reason) :=
  .bind (.bind .update fun _ => .bind hsustains.persist fun _ => .pure) fun _ => .throw

theorem Sustains.stampWhen {condition : RunRecord → Bool}
    {f : Timestamp → RunRecord → RunRecord} : Sustained D calm (stampWhen condition f) := by
  refine .bind_read fun record => ?_
  split
  · exact .bind (hsustains.ask .now trivial) fun _ => .update
  · exact .pure

theorem Sustains.setWorkerError {code : WorkerErrorCode} {summary : String} :
    Sustained D calm (setWorkerError ext code summary) :=
  .bind hsustains.stampWhen fun _ => .bind hsustains.stampWhen fun _ => .bind .update fun _ =>
    hsustains.persist

theorem Sustains.releaseReconciledClaim {cause : RecoveryCause} :
    Sustained D calm (releaseReconciledClaim cause) :=
  .bind (hsustains.mark fun _ => by simp) fun _ => .bind .update fun _ => hsustains.persist

/-! ## Delivery -/

theorem Sustains.prepareCompletion : Sustained D calm (prepareCompletion config) := by
  refine .bind_read fun record => ?_
  split
  · exact .pure
  · split
    · exact .throw
    · next claimToken _ =>
        refine .bind (Meets.ofExcept (fun _ _ _ _ _ h => h) fun _ _ _ _ _ h => h) fun outcome => ?_
        exact .bind .update fun _ => hsustains.persist

theorem Sustains.retryDelivery {attempt : Nat} :
    Sustained D calm (retryDelivery config attempt) :=
  .bind (hsustains.ask (.sleep _) trivial) fun _ => .pure

theorem Sustains.deliveryRound (attempt : Nat) :
    Sustained D calm (deliveryRound ext config attempt) := by
  refine .bind_read fun record => ?_
  split
  · exact .throw
  · next body _ =>
      refine .bind (hsustains.ask (.completeRaw record.id body) trivial) fun outcome => ?_
      split
      · exact .bind (.bind .update fun _ => hsustains.persist) fun _ => .pure
      · exact .throw
      · exact .bind hsustains.pause fun _ => .pure
      · exact hsustains.retryDelivery

theorem Sustains.deliverUntilTerminal : Sustained D calm (deliverUntilTerminal ext config) := by
  refine .bind (hsustains.mark fun _ => by simp) fun _ => .bind_read fun record => ?_
  split
  · exact .pure
  · exact .bind hsustains.prepareCompletion fun _ => .iterate hsustains.deliveryRound

/-! ## Settling a job -/

theorem Sustains.unsupportedJobReason : Sustained D calm (unsupportedJobReason config) := by
  refine .bind_read fun record => ?_
  split
  · exact .pure
  · refine .bind hsustains.listInventory fun packages => ?_
    split
    · exact .pure
    · exact .pure

theorem Sustains.reload : Sustained D calm reload := by
  refine .bind_read fun record => .bind (hsustains.onBehalf (.get record.id) trivial)
    fun outcome => ?_
  rcases outcome with error | found
  · exact .throw
  · cases found with
    | none => exact .throw
    | some executed => exact .update

section Reconciling

variable (hrecover : ∀ cause, Sustained D calm (recoverTargetIfRequired config cause))

include hrecover

theorem Sustains.recoverOrPause {cause : RecoveryCause} {context : String} :
    Sustained D calm (recoverOrPause ext config cause context) := by
  refine Meets.bind (Q := fun _ _ => calm) (Meets.attempt (hrecover cause)) fun outcome => ?_
  rcases outcome with error | _
  · exact hsustains.pause
  · exact Sustained.pure

theorem Sustains.settleExecution {execution : Except ControllerError Unit} :
    Sustained D calm (settleExecution ext config execution) := by
  rcases execution with error | _
  · exact .bind (hsustains.recoverOrPause hrecover) fun _ => hsustains.setWorkerError
  · exact .pure

theorem Sustains.settleInterrupted : Sustained D calm (settleInterrupted ext config) := by
  refine .bind (hsustains.ask .now trivial) fun _ => .bind .update fun _ =>
    .bind (hsustains.recoverOrPause hrecover) fun _ => .bind_read fun record => ?_
  split
  · exact hsustains.pause
  · refine .bind (hsustains.ask .claimLost trivial) fun lost => ?_
    split
    · exact hsustains.releaseReconciledClaim
    · exact .bind hsustains.setWorkerError fun _ => hsustains.deliverUntilTerminal

theorem Sustains.settleRecovered : Sustained D calm (settleRecovered ext config) := by
  refine .bind (hsustains.mark fun _ => by simp) fun _ => .bind_read fun record => ?_
  split
  · exact hsustains.deliverUntilTerminal
  · exact hsustains.settleInterrupted hrecover

end Reconciling

section Executing

variable {P P' : RunRecord → W → Prop}
  (hrecover : ∀ cause, Sustained D calm (recoverTargetIfRequired deployment.worker cause))
  (hexecute : ∀ record w, D.inv w → P record w → Safe D (fun _ => calm)
    (Worker.onBehalf record.id (Runner.execute ext deployment.runner record.id)) w)

include hrecover hexecute

/-- The execution of a run and what follows it. -/
theorem Sustains.executeAndSettle :
    Meets D P (executeAndSettle ext deployment) (fun _ _ => calm) (fun _ _ => calm) := by
  refine Meets.bind_read fun t => Meets.bind (Q := fun _ _ => calm) (Meets.run ?_) fun execution => ?_
  · rintro record w hinv ⟨rfl, hP⟩
    exact hexecute t w hinv hP
  refine Meets.bind hsustains.reload fun _ => Meets.bind (hsustains.settleExecution hrecover)
    fun _ => Meets.bind (hsustains.ask .claimLost trivial) fun lost => ?_
  split
  · exact .bind (hsustains.recoverOrPause hrecover) fun _ => hsustains.releaseReconciledClaim
  · refine Sustained.bind_read fun record => ?_
    split
    · exact hsustains.pause
    · exact hsustains.deliverUntilTerminal

theorem Sustains.settleClaim
    (hcheck : Meets D P' (Worker.unsupportedJobReason deployment.worker)
      (fun reason record w => calm w ∧ (reason = none → P record w)) (fun _ _ => calm)) :
    Meets D P' (settleClaim ext deployment) (fun _ _ => calm) (fun _ _ => calm) := by
  refine Meets.bind (Q := byOutcome (fun reason record w => calm w ∧ (reason = none → P record w))
    fun _ _ => calm) (Meets.attempt hcheck) fun outcome => ?_
  rcases outcome with error | reason
  · exact .bind hsustains.setWorkerError fun _ => hsustains.deliverUntilTerminal
  · cases reason with
    | none => exact (hsustains.executeAndSettle hrecover hexecute).pre fun _ _ _ h => h.2 rfl
    | some summary =>
        refine Meets.pre (.bind hsustains.setWorkerError fun _ =>
          hsustains.deliverUntilTerminal) ?_
        exact fun _ _ _ h => h.1

end Executing

end Settling

end Worker

end PackageHarness
