/-
# PackageHarness.Protocol.Delivery — ending a claim makes only permitted requests.

A claim ends with the acknowledgement of its completion or with its release. Both leave a store in
which no job holds a claim, because no other job held one before.
-/
import PackageHarness.Protocol.Settlement

namespace PackageHarness

open Interaction Routine

variable {ext : Externals} {avoided : Defect → Prop} {ledger : Ledger} {record : RunRecord}

/-- The outcome that is sent is the job's only one. -/
theorem completionOutcome_concludes {outcome : CompletionOutcome}
    (h : completionOutcome record = .ok outcome) : record.job.Concludes outcome := by
  unfold completionOutcome at h
  split at h
  · next result hresult herror =>
      split at h
      · cases h
        exact ⟨hresult, herror⟩
      · cases h
  · next error hresult herror =>
      cases h
      exact ⟨hresult, herror⟩
  · cases h
  · cases h

/-- A job that is sound and has one outcome can be completed. -/
theorem completionOutcome_ok {preflight : RunId → Option (List PackageSummary)}
    (hsound : record.job.Sound ext avoided preflight)
    (houtcome : record.result.isSome ∨ record.worker.workerError.isSome)
    (hexclusive : record.result = none ∨ record.worker.workerError = none) :
    ∃ outcome, completionOutcome record = .ok outcome := by
  unfold completionOutcome
  cases hresult : record.result with
  | some result =>
      have herror : record.worker.workerError = none := by simpa [hresult] using hexclusive
      have hrun : result.runId = record.id.value := (hsound.concluded result hresult).2
      simp [herror, hrun]
  | none =>
      obtain ⟨error, herror⟩ : ∃ error, record.worker.workerError = some error := by
        simpa [hresult, Option.isSome_iff_exists] using houtcome
      simp [herror]

namespace Worker

/-- From `P`, a settlement that returns leaves no claim behind. -/
abbrev Settles (ext : Externals) (avoided : Defect → Prop) (P : RunRecord → Ledger → Prop)
    (m : Settle Unit) : Prop :=
  Meets (protocol ext avoided) P m (fun _ _ w => w.Quiet) (fun _ _ _ => True)

/-- Ending the claim of the only job that has one. -/
theorem endClaim_meets {P : RunRecord → Ledger → Prop} {f : RunRecord → RunRecord}
    {site : SaveSite} {context : String}
    (hid : ∀ r, (f r).id = r.id) (htoken : ∀ r, (f r).worker.claimToken = none)
    (hP : ∀ r w, P r w → Copy ext avoided r w ∧ w.Accepts ext avoided (f r)) :
    Settles ext avoided P
      (do
        .update f
        persist site context) := by
  refine Meets.bind (Q := fun _ r w => w.Accepts ext avoided r ∧ w.QuietExcept r.id ∧
    r.worker.claimToken = none) (Meets.update ?_) fun _ => ?_
  · intro r w hinv h
    obtain ⟨hcopy, haccepts⟩ := hP r w h
    refine ⟨haccepts, ?_, htoken r⟩
    rw [hid]
    exact (hcopy.saveable hinv).2
  · refine persist_meets (fun _ _ _ h => ⟨h.1, h.2.1⟩) ?_ fun _ _ _ _ _ _ _ _ _ => trivial
    intro r w _ hpre _
    obtain ⟨_, hothers, hnone⟩ := hpre
    exact hothers.write hnone

/-- A lost claim is released once its target is as clean as it has to be. -/
theorem releaseReconciledClaim_meets {cause : RecoveryCause} :
    Settles ext avoided
      (fun r w => OpenCopy ext avoided r w ∧ (avoided .releasesUncleanClaim → r.job.Clean))
      (releaseReconciledClaim cause) := by
  refine Meets.bind (Q := fun _ r w => OpenCopy ext avoided r w ∧
    (avoided .releasesUncleanClaim → r.job.Clean)) (mark_meets ?_ fun _ _ _ h _ => h) fun _ => ?_
  · intro r w _ h
    exact h.2
  · refine endClaim_meets (fun _ => rfl) (fun _ => rfl) ?_
    intro r w hpre
    obtain ⟨hopen, hclean⟩ := hpre
    exact ⟨hopen.toCopy, hopen.accepts.released hopen.token hopen.noBody hclean⟩

/-! ## Delivery -/

section

variable {config : WorkerConfig}

/-- A copy whose completion body is durable. -/
structure Prepared (ext : Externals) (avoided : Defect → Prop) (record : RunRecord)
    (ledger : Ledger) : Prop extends Copy ext avoided record ledger where
  synced : Synced record ledger
  body : record.worker.pendingCompletionBody.isSome

theorem prepareCompletion_meets :
    Meets (protocol ext avoided) (Delivering ext avoided (avoided .redeliversUncleanResult))
      (prepareCompletion config) (fun _ => Prepared ext avoided) (fun _ _ _ => True) := by
  refine Meets.bind_read fun t => ?_
  split
  · next hbody =>
      refine Meets.pure ?_
      intro r w _ hpre
      obtain ⟨rfl, h⟩ := hpre
      exact { h with body := hbody }
  · next hbody =>
      have hbody : t.worker.pendingCompletionBody = none := by simpa using hbody
      split
      · exact Meets.throw fun _ _ _ _ => trivial
      · next claimToken htoken =>
          refine Meets.bind (Q := fun outcome r w => t.job.Concludes outcome ∧ t = r ∧
            Delivering ext avoided (avoided .redeliversUncleanResult) r w)
            (Meets.ofExcept ?_ fun _ _ _ _ _ _ => trivial) fun outcome => ?_
          · exact fun _ _ _ houtcome _ h => ⟨completionOutcome_concludes houtcome, h⟩
          refine Meets.bind (Q := fun _ r w => Copy ext avoided r w ∧
            r.worker.pendingCompletionBody.isSome) (Meets.update ?_) fun _ => ?_
          · intro r w _ hpre
            obtain ⟨hconcludes, rfl, h⟩ := hpre
            exact ⟨⟨h.token, h.accepts.withCompletion htoken hbody hconcludes h.cleaned⟩, rfl⟩
          · refine persist_meets (fun _ _ hinv h => h.1.saveable hinv) ?_
              fun _ _ _ _ _ _ _ _ _ => trivial
            intro r w _ hpre _
            obtain ⟨hcopy, hsome⟩ := hpre
            exact { hcopy.write with synced := Synced.write r w, body := hsome }

theorem retryDelivery_meets {attempt : Nat} :
    Meets (protocol ext avoided) (Prepared ext avoided) (retryDelivery config attempt)
      (nextRound (fun _ => Prepared ext avoided) fun _ _ w => w.Quiet) (fun _ _ _ => True) := by
  refine Meets.bind (Q := fun _ => Prepared ext avoided)
    (ask_meets rfl (fun _ _ _ _ => trivial) ?_) fun _ => Meets.pure fun _ _ _ h => h
  intro r w answer after _ h hanswers
  exact ⟨hanswers, h⟩

/-- One delivery attempt: the body that is sent is the durable one. -/
theorem deliveryRound_meets {attempt : Nat} :
    Meets (protocol ext avoided) (Prepared ext avoided) (deliveryRound ext config attempt)
      (nextRound (fun _ => Prepared ext avoided) fun _ _ w => w.Quiet) (fun _ _ _ => True) := by
  refine Meets.bind_read fun t => ?_
  split
  · exact Meets.throw fun _ _ _ _ => trivial
  · next body hbody =>
      refine Meets.bind (Q := fun _ r w => Prepared ext avoided r w)
        (ask_meets rfl ?_ ?_) fun answer => ?_
      · intro r w _ hpre
        obtain ⟨rfl, h⟩ := hpre
        exact ⟨t.persisted, h.synced, hbody⟩
      · intro r w answer after _ hpre hanswers
        obtain ⟨_, h⟩ := hpre
        exact ⟨hanswers, h⟩
      · have hpause : ∀ reason, Meets (protocol ext avoided) (Prepared ext avoided)
            (do
              pause ext .completionConflict reason
              return Sum.inr ())
            (nextRound (fun (_ : Nat) => Prepared ext avoided) fun _ _ w => w.Quiet)
            (fun _ _ _ => True) := by
          intro reason
          refine Meets.bind (Q := fun _ _ w => w.Quiet) (pause_meets ?_)
            fun _ => Meets.pure fun _ _ _ h => h
          intro r w _ h
          exact ⟨h.toCopy, fun _ => h.body, fun _ hkind => by simp at hkind⟩
        rcases answer with error | disposition
        · cases error with
          | authentication status => exact Meets.throw fun _ _ _ _ => trivial
          | completionConflict status message => exact hpause _
          -- every other answer leaves the body as it is for the next attempt
          | _ => exact retryDelivery_meets
        · refine Meets.bind (Q := fun _ _ w => w.Quiet)
            (endClaim_meets (f := RunRecord.acknowledged disposition) (fun _ => rfl)
              (fun _ => rfl) ?_) fun _ => Meets.pure fun _ _ _ h => h
          exact fun r w h => ⟨h.toCopy, h.accepts.acknowledged h.body disposition⟩

/-- The whole delivery: every attempt sends the same durable body. -/
theorem deliverUntilTerminal_meets :
    Settles ext avoided (Delivering ext avoided (avoided .redeliversUncleanResult))
      (deliverUntilTerminal ext config) := by
  refine Meets.bind (Q := fun _ => Delivering ext avoided (avoided .redeliversUncleanResult))
    (mark_meets ?_ fun _ _ _ h _ => h) fun _ => ?_
  · exact fun r w _ h => ⟨rfl, h.synced, h.token, h.outcome, h.cleaned⟩
  refine Meets.bind_read fun t => ?_
  split
  · next hacknowledged =>
      refine Meets.pure ?_
      intro r w _ hpre
      obtain ⟨rfl, h⟩ := hpre
      -- unreachable: an acknowledged job has no claim token
      have hopen : t.worker.completionAcknowledged = false :=
        h.accepts.sound.not_acknowledged h.token
      simp [hacknowledged] at hopen
  · refine Meets.bind (prepareCompletion_meets.pre (fun _ _ _ h => h.2)) fun _ => ?_
    exact Meets.iterate (fun _ => Prepared ext avoided) (fun _ _ _ h => h)
      fun _ => deliveryRound_meets

end

end Worker

end PackageHarness
