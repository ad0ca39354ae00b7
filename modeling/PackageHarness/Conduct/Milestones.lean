/-
# PackageHarness.Conduct.Milestones — settling a job keeps its timeline.

A settlement works on a copy of a record that was created or read, and stores that copy again. It
moves the copy to the last phase at most once, when no result was produced; everything else that it
does leaves the timeline alone. With the controller's part this covers the whole worker.
-/
import PackageHarness.Conduct.Timeline

namespace PackageHarness

open Interaction Routine

namespace RunRecord

variable {record : RunRecord} {time : Timestamp}

/-- A record that has been completed, but has perhaps not entered its last phase. -/
structure Stamped (record : RunRecord) : Prop extends Ordered record where
  completed : record.status = .completed
  stamped : record.finishedAt.isSome

theorem Timely.stamp (h : record.Timely) :
    Stamped { record with status := .completed, finishedAt := some time } :=
  ⟨⟨h.begins, h.increasing, h.ends⟩, rfl, rfl⟩

theorem Timely.stamped (h : record.Timely) (hcompleted : record.status = .completed) :
    record.Stamped :=
  ⟨h.toOrdered, hcompleted, (h.completed hcompleted).2⟩

theorem Stamped.timely (h : record.Stamped) (hfinished : record.phase = .finished) :
    record.Timely := by
  refine ⟨h.toOrdered, fun _ => ⟨hfinished, h.stamped⟩, ?_⟩
  intro hqueued
  rw [h.completed] at hqueued
  cases hqueued

theorem lt_finished {phase : ExecutionPhase} (h : phase ≠ .finished) :
    phase.ctorIdx < ExecutionPhase.finished.ctorIdx := by
  cases phase with
  | finished => exact absurd rfl h
  | _ => decide

theorem Stamped.finish (h : record.Stamped) (hunfinished : record.phase ≠ .finished) :
    (record.transition .finished time).Timely := by
  have hfinish : (record.transition .finished time).Stamped :=
    ⟨h.toOrdered.transition (lt_finished hunfinished), h.completed, h.stamped⟩
  exact hfinish.timely rfl

theorem timeline_recordWorkerError (code : WorkerErrorCode) (summary : String)
    (record : RunRecord) : (recordWorkerError code summary record).timeline = record.timeline := by
  unfold recordWorkerError
  split <;> rfl

end RunRecord

namespace Worker

open RunRecord

section Settlement

variable {ext : Externals} {config : WorkerConfig} {deployment : Deployment} {α : Type}
  {e : WorkerRequest} {P : RunRecord → Prop} {f : RunRecord → RunRecord}
  {F : String → RunRecord → Unit → Prop}

/-- The record that a settlement holds, as an assertion about its routines. -/
abbrev tells (P : RunRecord → Prop) (record : RunRecord) (_ : Unit) : Prop := P record

/-- The record is timely before and after the routine, whichever way it ends. -/
abbrev Timed (m : Settle α) : Prop :=
  Meets (upkeep Timely) (tells Timely) m (fun _ => tells Timely) fun _ => tells Timely

theorem timed_pure {a : α} : Timed (Pure.pure a) := Meets.pure fun _ _ _ h => h

theorem timed_throw {text : String} : Timed (.throw text : Settle α) :=
  Meets.throw fun _ _ _ h => h

theorem timed_update (hf : ∀ r, (f r).timeline = r.timeline) : Timed (.update f) :=
  Meets.update fun _ _ _ h => h.of_timeline (hf _)

theorem ask_tells (hwrites : e.Writes Timely) :
    Meets (upkeep Timely) (tells P) (.run (ask e)) (fun _ => tells P) F :=
  Meets.kept (P := fun record : RunRecord => P record) (Q := fun _ record => P record)
    (fun _ _ => hwrites) fun _ _ _ h => h

theorem ask_onBehalf {run : RunId} {asked : RunnerRequest} (hwrites : asked.Writes Timely) :
    Meets (upkeep Timely) (tells P) (.run (onBehalf run (Runner.ask asked))) (fun _ => tells P) F :=
  ask_tells (e := .runner run asked) hwrites

theorem persist_timed {site : SaveSite} {context : String} : Timed (persist site context) := by
  refine Meets.bind_read fun t => ?_
  refine Meets.bind (Q := fun _ => tells Timely) ?_ fun answer => ?_
  · refine (Meets.kept (e := .runner t.id (.save site t))
      (P := fun record => t = record ∧ record.Timely) (Q := fun _ record => record.Timely)
      ?_ ?_).pre fun _ _ _ h => h
    · rintro record ⟨rfl, h⟩
      exact h
    · exact fun _ _ _ h => h.2
  · rcases answer with error | _
    · exact timed_throw
    · exact timed_pure

theorem listInventory_timed {purpose : InventoryUse} {context : String} :
    Timed (listInventory purpose context) := by
  refine Meets.bind_read_any fun t => Meets.bind (ask_onBehalf trivial) fun answer => ?_
  rcases answer with error | packages
  · exact timed_throw
  · exact timed_pure

theorem mark_timed {point : RunRecord → ProgramPoint} : Timed (mark point) :=
  Meets.bind_read_any fun _ => ask_onBehalf trivial

theorem reconcileTarget_tells {run : RunId} {dnpName : DnpName} {plan : TargetRecoveryPlan}
    {initial : List PackageSummary} {timeout : Duration} :
    Meets (upkeep Timely) (tells P)
      (.run (onBehalf run (Runner.reconcileTarget dnpName plan initial timeout)))
      (fun _ => tells P) F := by
  refine Meets.run fun record _ _ h => Safe.translate ?_
  refine (Runner.reconcileTarget_within.safe (fun _ => True) trivial trivial ?_ ?_ ?_).mono
    fun _ _ _ _ => h
  · exact fun request _ hrequest _ _ => writes_of_reconciles hrequest
  · exact fun _ _ _ _ _ _ _ _ => trivial
  · exact fun _ _ _ _ _ _ _ => trivial

theorem recoverTargetIfRequired_timed {cause : RecoveryCause} :
    Timed (recoverTargetIfRequired config cause) := by
  refine Meets.bind_read_any fun record => ?_
  split
  · exact persist_timed
  · split
    · exact timed_throw
    · refine Meets.bind listInventory_timed fun packages => ?_
      split
      · exact timed_throw
      · refine Meets.bind (ask_onBehalf trivial) fun _ => ?_
        refine Meets.bind reconcileTarget_tells fun outcome => ?_
        exact Meets.bind (timed_update fun _ => rfl) fun _ => persist_timed

theorem pause_timed {kind : ManualRecoveryKind} {reason : String} :
    Timed (pause ext kind reason) := by
  refine Meets.bind (Meets.bind (timed_update fun _ => rfl) fun _ => ?_) fun _ => timed_throw
  exact Meets.bind persist_timed fun _ => timed_pure

theorem recoverOrPause_timed {cause : RecoveryCause} {context : String} :
    Timed (recoverOrPause ext config cause context) := by
  refine Meets.bind (Q := fun _ => tells Timely) (Meets.attempt recoverTargetIfRequired_timed)
    fun outcome => ?_
  rcases outcome with error | _
  · exact pause_timed
  · exact timed_pure

/-- A record that meets the condition is changed, any other stays. -/
theorem stampWhen_tells {Q : RunRecord → Prop} {condition : RunRecord → Bool}
    {f : Timestamp → RunRecord → RunRecord}
    (hchanged : ∀ time record, P record → condition record = true → Q (f time record))
    (hkept : ∀ record, P record → condition record = false → Q record) :
    Meets (upkeep Timely) (tells P) (stampWhen condition f) (fun _ => tells Q) F := by
  refine Meets.bind_read fun t => ?_
  split
  · next hcondition =>
    refine Meets.bind (ask_tells (P := fun record => t = record ∧ P record) (e := .now) trivial)
      fun time => ?_
    refine Meets.update ?_
    rintro record _ _ ⟨rfl, h⟩
    exact hchanged time _ h hcondition
  · next hcondition =>
    refine Meets.pure ?_
    rintro record _ _ ⟨rfl, h⟩
    exact hkept _ h (Bool.not_eq_true _ ▸ hcondition)

/-- The last phase is entered unless the record is already there. -/
theorem setWorkerError_timed {code : WorkerErrorCode} {summary : String} :
    Timed (setWorkerError ext code summary) := by
  refine Meets.bind (Q := fun _ => tells Stamped) (stampWhen_tells ?_ ?_) fun _ => ?_
  · exact fun _ _ h _ => h.stamp
  · exact fun record h hcompleted => h.stamped (by simpa using hcompleted)
  refine Meets.bind (Q := fun _ => tells Timely) (stampWhen_tells ?_ ?_) fun _ => ?_
  · exact fun _ record h hunfinished => h.finish (by simpa using hunfinished)
  · exact fun record h hfinished => h.timely (by simpa using hfinished)
  exact Meets.bind (timed_update (timeline_recordWorkerError _ _)) fun _ => persist_timed

theorem releaseReconciledClaim_timed {cause : RecoveryCause} :
    Timed (releaseReconciledClaim cause) :=
  Meets.bind mark_timed fun _ => Meets.bind (timed_update fun _ => rfl) fun _ => persist_timed

theorem prepareCompletion_timed : Timed (prepareCompletion config) := by
  refine Meets.bind_read_any fun record => ?_
  split
  · exact timed_pure
  · split
    · exact timed_throw
    · refine Meets.bind (Q := fun _ => tells Timely)
        (Meets.ofExcept (fun _ _ _ _ _ h => h) fun _ _ _ _ _ h => h) fun outcome => ?_
      exact Meets.bind (timed_update fun _ => rfl) fun _ => persist_timed

theorem deliveryRound_timed {attempt : Nat} : Timed (deliveryRound ext config attempt) := by
  refine Meets.bind_read_any fun record => ?_
  split
  · exact timed_throw
  · refine Meets.bind (ask_tells trivial) fun outcome => ?_
    split
    · refine Meets.bind (Meets.bind (timed_update fun _ => rfl) fun _ => persist_timed)
        fun _ => timed_pure
    · exact timed_throw
    · exact Meets.bind pause_timed fun _ => timed_pure
    · exact Meets.bind (ask_tells trivial) fun _ => timed_pure

theorem deliverUntilTerminal_timed : Timed (deliverUntilTerminal ext config) := by
  refine Meets.bind mark_timed fun _ => Meets.bind_read_any fun record => ?_
  split
  · exact timed_pure
  · refine Meets.bind prepareCompletion_timed fun _ => ?_
    refine Meets.iterate (fun _ => tells Timely) (fun _ _ _ h => h) fun attempt => ?_
    refine deliveryRound_timed.weaken (fun _ _ _ h => h) (fun ending _ _ _ h => ?_)
      fun _ _ _ _ h => h
    cases ending <;> exact h

theorem unsupportedJobReason_timed : Timed (unsupportedJobReason config) := by
  refine Meets.bind_read_any fun record => ?_
  split
  · exact timed_pure
  · refine Meets.bind listInventory_timed fun packages => ?_
    split
    · exact timed_pure
    · exact timed_pure

/-- What replaces the copy was in the store. -/
theorem reload_timed : Timed reload := by
  refine Meets.bind_read_any fun t => ?_
  refine Meets.bind (Q := fun answer record _ => record.Timely ∧
    ∀ found, answer = .ok (some found) → found.Timely) ?_ fun answer => ?_
  · exact Meets.kept (e := .runner t.id (.get t.id)) (P := Timely)
      (Q := fun answer record => record.Timely ∧
        ∀ found, answer = .ok (some found) → found.Timely)
      (fun _ _ => trivial) fun _ _ hreads h => ⟨h, hreads⟩
  · rcases answer with error | (_ | executed)
    · exact Meets.throw fun _ _ _ h => h.1
    · exact Meets.throw fun _ _ _ h => h.1
    · exact Meets.update fun _ _ _ h => h.2 executed rfl

theorem settleExecution_timed {execution : Except ControllerError Unit} :
    Timed (settleExecution ext config execution) := by
  rcases execution with error | _
  · exact Meets.bind recoverOrPause_timed fun _ => setWorkerError_timed
  · exact timed_pure

theorem executeAndSettle_timed : Timed (executeAndSettle ext deployment) := by
  refine Meets.bind_read_any fun t => ?_
  refine Meets.bind (Q := fun _ => tells Timely) (Meets.run fun record _ _ h => ?_)
    fun execution => ?_
  · exact Conduct.execute_timely.mono fun _ _ _ _ => h
  refine Meets.bind reload_timed fun _ => Meets.bind settleExecution_timed fun _ => ?_
  refine Meets.bind (ask_tells trivial) fun lost => ?_
  split
  · exact Meets.bind recoverOrPause_timed fun _ => releaseReconciledClaim_timed
  · refine Meets.bind_read_any fun record => ?_
    split
    · exact pause_timed
    · exact deliverUntilTerminal_timed

theorem settleClaim_timed : Timed (settleClaim ext deployment) := by
  refine Meets.bind (Q := fun _ => tells Timely) (Meets.attempt unsupportedJobReason_timed)
    fun outcome => ?_
  rcases outcome with error | (_ | summary)
  · exact Meets.bind setWorkerError_timed fun _ => deliverUntilTerminal_timed
  · exact executeAndSettle_timed
  · exact Meets.bind setWorkerError_timed fun _ => deliverUntilTerminal_timed

theorem settleInterrupted_timed : Timed (settleInterrupted ext config) := by
  refine Meets.bind (ask_tells trivial) fun time => ?_
  refine Meets.bind (Q := fun _ => tells Timely) (Meets.update ?_) fun _ => ?_
  · exact fun _ _ _ h => h.interrupt
  refine Meets.bind recoverOrPause_timed fun _ => Meets.bind_read_any fun record => ?_
  split
  · exact pause_timed
  · refine Meets.bind (ask_tells trivial) fun lost => ?_
    split
    · exact releaseReconciledClaim_timed
    · exact Meets.bind setWorkerError_timed fun _ => deliverUntilTerminal_timed

theorem settleRecovered_timed : Timed (settleRecovered ext config) := by
  refine Meets.bind mark_timed fun _ => Meets.bind_read_any fun record => ?_
  split
  · exact deliverUntilTerminal_timed
  · exact settleInterrupted_timed

end Settlement

/-! ## The whole worker -/

section Loops

variable {ext : Externals} {deployment : Deployment}

theorem supervised_timely {record : RunRecord} {settle : Settle Unit} (h : record.Timely)
    (hsettle : Timed settle) :
    Safe (upkeep Timely) (fun _ _ => True) (supervised record settle) () := by
  have hsettled := hsettle record () trivial h
  unfold supervised
  split
  · exact hsettled.bind fun _ _ _ _ => Safe.pure trivial trivial
  · refine Safe.kept trivial fun _ _ => ?_
    refine hsettled.bind fun _ _ _ _ => ?_
    exact Safe.kept trivial fun _ _ => Safe.pure trivial trivial

theorem processClaim_timely {job : ClaimedJob} :
    Free (upkeep Timely) (processClaim ext deployment job) := by
  refine fun _ _ => Safe.kept trivial fun time _ => ?_
  have hclaimed := claimed_timely job.request job.claimToken time
  refine Safe.kept hclaimed fun outcome _ => ?_
  rcases outcome with error | _
  · exact Safe.pure trivial trivial
  · exact Safe.kept trivial fun _ _ => supervised_timely hclaimed settleClaim_timed

theorem unresolvedJob_mem {records : List RunRecord} {record : RunRecord}
    (h : unresolvedJob records = .job record) : record ∈ records := by
  unfold unresolvedJob at h
  split at h
  · cases h
  · next found hfound =>
      have hmem : found ∈ records.filter RunRecord.requiresWorkerAttention := by
        rw [hfound]
        exact List.mem_singleton_self found
      split at h
      · cases h
      · cases h
        exact List.mem_of_mem_filter hmem
  · cases h

theorem recover_timely : Free (upkeep Timely) (recover ext deployment) := by
  refine fun _ _ => Safe.kept trivial fun answer hreads => ?_
  rcases answer with error | records
  · exact Safe.pure trivial trivial
  · dsimp only [Program.bind]
    split
    · exact Safe.pure trivial trivial
    · exact Safe.pure trivial trivial
    · exact Safe.pure trivial trivial
    · next record hjob =>
        have hrecord := hreads records rfl record (unresolvedJob_mem hjob)
        refine Safe.kept trivial fun _ _ => Safe.kept trivial fun _ _ => ?_
        exact supervised_timely hrecord settleRecovered_timed

/-- Whatever it is answered, the worker writes timely records, if it reads such. -/
theorem run_timely : Free (upkeep Timely) (run ext deployment) := by
  refine upkeep_admitsIdling.run recover_timely fun attempt => ?_
  exact upkeep_admitsIdling.claimRound fun _ _ after _ hinv => processClaim_timely after hinv

end Loops

end Worker

end PackageHarness
