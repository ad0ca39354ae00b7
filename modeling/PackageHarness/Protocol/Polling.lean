/-
# PackageHarness.Protocol.Polling — the whole worker makes only permitted requests.

Outside a settlement the worker holds no copy of a record, so an operator may act at any of its
requests. Two assertions survive that: nothing at all, and that no job holds a claim.
-/
import PackageHarness.Protocol.Jobs

namespace PackageHarness

open Interaction Routine

variable {ext : Externals} {avoided : Defect → Prop} {ledger : Ledger}

/-- An assertion about the ledger that recovery actions do not disturb. -/
def Enduring (ext : Externals) (avoided : Defect → Prop) (P : Ledger → Prop) : Prop :=
  ∀ before after action run answer, before.Consistent ext avoided → P before →
    before.Operates action run answer after → P after

theorem enduring_true : Enduring ext avoided fun _ => True := fun _ _ _ _ _ _ _ _ => trivial

theorem enduring_quiet : Enduring ext avoided Ledger.Quiet :=
  fun _ _ _ _ _ hinv hquiet hoperates => hquiet.follows
    (Ledger.Follows.operate hinv hoperates).evolves (Ledger.Operates.back hinv hoperates)

/-- A job that was just claimed is sound. -/
theorem claimed_sound (preflight : RunId → Option (List PackageSummary)) (request : RunRequest)
    (claimToken : String) (time : Timestamp) :
    (RunRecord.claimed request claimToken time).job.Sound ext avoided preflight where
  untouched := fun _ => Or.inl rfl
  touched := fun h => by cases h
  planned := fun h => by cases h
  settled := fun h => by rcases h with h | h <;> cases h
  concluded := fun _ h => by cases h
  rendered := fun _ h => by cases h
  acknowledged := fun h => by cases h
  quiet := fun h => by cases h
  conflict := fun h => by cases h
  interrupted := fun _ h => by cases h
  exclusive := fun _ => Or.inl rfl
  delivered := fun _ h => by cases h
  freed := fun _ _ h => by cases h
  held := fun _ h => by cases h

/-! ## Inert requests -/

/-- Whether a request needs no permission and changes nothing durable. -/
def WorkerRequest.inert : WorkerRequest → Bool
  | runner _ _ | create _ | claim | completeRaw _ _ | markDrained => false
  | _ => true

theorem inert_permits {request : WorkerRequest} (h : request.inert = true) :
    ledger.Permits ext avoided request := by
  cases request with
  | runner run request => cases h
  | create record => cases h
  | claim => cases h
  | completeRaw run body => cases h
  | markDrained => cases h
  | _ => trivial

theorem inert_answers {request : WorkerRequest} {answer : request.Answer} {after : Ledger}
    (h : request.inert = true) (hanswers : ledger.Answers request answer after) :
    after = ledger := by
  cases request with
  | runner run request => cases h
  | create record => cases h
  | completeRaw run body => cases h
  | claim => cases h
  | loadAll => exact hanswers.1
  | _ => exact hanswers

namespace Worker

variable {deployment : Deployment}

/-! ## Requests between settlements -/

/-- A request at which an operator may act. -/
theorem ask_safe (request : WorkerRequest) {P : Ledger → Prop} (hP : Enduring ext avoided P)
    {Q : request.Answer → Ledger → Prop} (hinv : ledger.Consistent ext avoided) (h : P ledger)
    (hpermits : ∀ w, P w → w.Permits ext avoided request)
    (hanswer : ∀ (w : Ledger) answer after, P w → w.Answers request answer after →
      Q answer after) :
    Safe (protocol ext avoided) Q (ask request) ledger := by
  refine Safe.request P hinv h ?_ (fun w _ hPw => hpermits w hPw) ?_
  · intro before after hbefore hPbefore hanswer
    obtain ⟨_, action, run, answer, hoperates⟩ := hanswer
    exact hP before after action run answer hbefore hPbefore hoperates
  · intro w answer after hw hPw hanswer hafter
    obtain ⟨hanswers, _⟩ := hanswer
    exact Safe.pure hafter (hanswer w answer after hPw hanswers)

/-- An inert request at which an operator may act. -/
theorem ask_free (request : WorkerRequest) (hinert : request.inert = true) {P : Ledger → Prop}
    (hP : Enduring ext avoided P) (hinv : ledger.Consistent ext avoided) (h : P ledger) :
    Safe (protocol ext avoided) (fun _ => P) (ask request) ledger :=
  ask_safe request hP hinv h (fun _ _ => inert_permits hinert) fun w answer after hPw hanswers => by
    rw [inert_answers hinert hanswers]
    exact hPw

/-- An inert request while a copy is held. -/
theorem ask_held (request : WorkerRequest) (hinert : request.inert = true)
    (hheld : request.holdsCopy = true) {P : Ledger → Prop} (hinv : ledger.Consistent ext avoided)
    (h : P ledger) : Safe (protocol ext avoided) (fun _ => P) (ask request) ledger := by
  refine Safe.request_still (protocol_still hheld) hinv (inert_permits hinert) ?_
  intro answer after hanswer hinv'
  obtain ⟨hanswers, _⟩ := hanswer
  have hafter := inert_answers hinert hanswers
  subst hafter
  exact Safe.pure hinv' h

/-! ## Settling under supervision -/

/-- Where a settlement succeeded, no job holds a claim. -/
def SettledQuiet (outcome : Except String Unit) (ledger : Ledger) : Prop :=
  ∀ value, outcome = .ok value → ledger.Quiet

theorem supervised_safe {P : RunRecord → Ledger → Prop} {record : RunRecord} {settle : Settle Unit}
    (hsettle : Settles ext avoided P settle)
    (hinv : ledger.Consistent ext avoided) (h : P record ledger) :
    Safe (protocol ext avoided) SettledQuiet (supervised record settle) ledger := by
  have houtcome : ∀ outcome (s : RunRecord) w,
      ends (fun _ _ w => w.Quiet) (fun _ _ _ => True) (outcome, s) w → SettledQuiet outcome w := by
    intro outcome s w hends _ hok
    rcases outcome with error | _
    · cases hok
    · exact hends
  unfold supervised
  split
  · refine (hsettle record ledger hinv h).bind ?_
    intro c w hw hends
    obtain ⟨outcome, s⟩ := c
    exact Safe.pure hw (houtcome outcome s w hends)
  · refine Safe.bind (ask_held (.startHeartbeat _ _) rfl rfl (P := P record) hinv h) ?_
    intro _ w hw hPw
    refine (hsettle record w hw hPw).bind ?_
    intro c w' hw' hends
    obtain ⟨outcome, s⟩ := c
    refine Safe.bind (ask_held .stopHeartbeat rfl rfl (P := SettledQuiet outcome) hw'
      (houtcome outcome s w' hends)) ?_
    exact fun _ w'' hw'' hquiet => Safe.pure hw'' hquiet

/-- What a successful `create` leaves behind. -/
theorem claimed_of_create {after : Ledger} {request : RunRequest} {claimToken : String}
    {time : Timestamp} (hinv : ledger.Consistent ext avoided)
    (hafter : after.Consistent ext avoided)
    (hanswers : ledger.Answers (.create (RunRecord.claimed request claimToken time)) (.ok ())
      after) :
    Claimed ext avoided request.runId after (RunRecord.claimed request claimToken time) := by
  obtain ⟨hcreates, hpreflight⟩ := hanswers
  unfold RunStore.Creates at hcreates
  split at hcreates
  · next hnew =>
      have hdurable : after.store request.runId =
          some (RunRecord.claimed request claimToken time) := by
        rw [show after.store = _ from hcreates]
        exact RunStore.write_same ..
      have hdriving : Driving ext avoided request.runId after
          (RunRecord.claimed request claimToken time).job := {
        named := rfl
        noError := rfl
        noBody := rfl
        noHold := rfl
        token := rfl
        unheld := fun found hfound => by
          cases hdurable.symm.trans hfound
          rfl
        unconcluded := rfl
        undecided := rfl
        durable := ⟨_, hdurable, Job.Evolves.refl _⟩
        sound := hafter.sound hdurable }
      refine ⟨hdurable, rfl, hdriving, rfl, ?_⟩
      rw [hpreflight]
      cases hread : ledger.preflight request.runId with
      | none => rfl
      | some packages =>
          -- an inventory is noted only for a run that has a record
          have hknown := hinv.known hread
          rw [show ledger.store request.runId = none from hnew] at hknown
          cases hknown
  · obtain ⟨_, error, hok⟩ := hcreates
    cases hok

/-- A new job is claimed on a store in which no job holds a claim. -/
theorem processClaim_safe {job : ClaimedJob} (hinv : ledger.Consistent ext avoided)
    (hquiet : ledger.Quiet) :
    Safe (protocol ext avoided) SettledQuiet (processClaim ext deployment job) ledger := by
  refine Safe.bind (ask_held .now rfl rfl (P := Ledger.Quiet) hinv hquiet) ?_
  intro time w hw hquiet
  let record := RunRecord.claimed job.request job.claimToken time
  refine Safe.bind (Q := fun answer after => answer = .ok () →
    Claimed ext avoided record.id after record) ?_ ?_
  · refine Safe.request_still (protocol_still rfl) hw
      ⟨hquiet, claimed_sound w.preflight job.request job.claimToken time⟩ ?_
    intro answer after hanswer hafter
    obtain ⟨hanswers, _⟩ := hanswer
    refine Safe.pure hafter ?_
    intro hok
    subst hok
    exact claimed_of_create hw hafter hanswers
  · intro outcome w' hw' hclaimed
    rcases outcome with error | _
    · exact Safe.pure hw' fun _ hok => by cases hok
    · refine Safe.bind (ask_held .newProgress rfl rfl
        (P := fun w => Claimed ext avoided record.id w record) hw' (hclaimed rfl)) ?_
      exact fun _ w'' hw'' h => supervised_safe settleClaim_meets hw'' h

/-! ## Recovery -/

theorem unresolvedJob_nothing {records : List RunRecord} (h : unresolvedJob records = .nothing) :
    ∀ record ∈ records, record.requiresWorkerAttention = false := by
  unfold unresolvedJob at h
  split at h
  · next hnone =>
      intro record hmem
      have hfilter := List.filter_eq_nil_iff.mp hnone record hmem
      simpa using hfilter
  · split at h <;> cases h
  · cases h

theorem unresolvedJob_job {records : List RunRecord} {record : RunRecord}
    (h : unresolvedJob records = .job record) :
    record ∈ records ∧ record.requiresWorkerAttention = true := by
  unfold unresolvedJob at h
  split at h
  · cases h
  · next found hfilter =>
      have hfound : found = record := by
        split at h
        · cases h
        · cases h
          rfl
      subst hfound
      have hmem : found ∈ records.filter RunRecord.requiresWorkerAttention := by
        rw [hfilter]
        exact List.mem_singleton_self found
      exact List.mem_filter.mp hmem
  · cases h

/-- A listed record is durable under its id. -/
theorem synced_of_listed {records : List RunRecord} {record : RunRecord}
    (hinv : ledger.Consistent ext avoided) (hlists : ledger.store.Lists records)
    (hmem : record ∈ records) (hattention : record.requiresWorkerAttention = true) :
    Synced record ledger ∧ record.worker.claimToken.isSome := by
  have hrun := hlists.mem.mp hmem
  rw [hinv.requiresWorkerAttention hrun] at hattention
  refine ⟨?_, hattention⟩
  show ledger.store record.id = some record.persisted
  rw [hinv.stored hrun]
  exact hrun

/-- Recovery ends normally only when no job holds a claim. -/
theorem recover_safe (hinv : ledger.Consistent ext avoided) :
    Safe (protocol ext avoided) SettledQuiet (recover ext deployment) ledger := by
  let Listed : Except StoreError (List RunRecord) → Ledger → Prop := fun answer w =>
    ∀ records, answer = .ok records → w.store.Lists records
  refine Safe.bind (ask_safe .loadAll (Q := Listed) enduring_true hinv trivial
    (fun _ _ => trivial) ?_) ?_
  · intro w answer after _ hanswer
    obtain ⟨rfl, hlists⟩ := hanswer
    exact hlists
  intro outcome w hw hlists
  rcases outcome with error | records
  · exact Safe.pure hw fun _ hok => by cases hok
  have hlists := hlists records rfl
  dsimp only
  split
  · next hnothing =>
      refine Safe.pure hw ?_
      intro _ _ run record hrun
      have hfree := unresolvedJob_nothing hnothing record (hlists.mem_of_lookup hrun)
      rw [hw.requiresWorkerAttention hrun] at hfree
      simpa using hfree
  · exact Safe.pure hw fun _ hok => by cases hok
  · exact Safe.pure hw fun _ hok => by cases hok
  · next record hjob =>
      -- from here the worker holds a copy, so nobody else touches the ledger
      obtain ⟨hmem, hattention⟩ := unresolvedJob_job hjob
      refine Safe.bind (ask_held .newProgress rfl rfl
        (P := fun w => Synced record w ∧ record.worker.claimToken.isSome) hw
        (synced_of_listed hw hlists hmem hattention)) fun _ w' hw' h => ?_
      have hobserves : Runner.Observes
        (.publish record.phase record.worker.cleanupRequired) := trivial
      refine (onBehalf_safe (Observes.safe (Within.ask hobserves) hw')).bind ?_
      intro _ _ hw'' hpost
      obtain ⟨rfl, _⟩ := hpost
      exact supervised_safe settleRecovered_meets hw'' h

/-! ## Waiting -/

theorem awaitRecovery_safe (hinv : ledger.Consistent ext avoided) :
    Safe (protocol ext avoided) (fun _ _ => True) awaitRecovery ledger := by
  refine Safe.bind (ask_free .recoveryWait rfl enduring_true hinv trivial) ?_
  intro _ w hw _
  exact ask_free .accepting rfl enduring_true hw trivial

theorem waitForOperatorRecovery_safe (hinv : ledger.Consistent ext avoided) :
    Safe (protocol ext avoided) (fun _ _ => True) waitForOperatorRecovery ledger := by
  refine Safe.bind (ask_free .accepting rfl enduring_true hinv trivial) ?_
  intro accepting w hw _
  split
  · refine Safe.bind (ask_free .loadAll rfl enduring_true hw trivial) ?_
    intro answer w' hw' _
    rcases answer with error | records
    · exact Safe.pure hw' trivial
    · dsimp only
      split
      · exact awaitRecovery_safe hw'
      · exact Safe.pure hw' trivial
  · exact Safe.pure hw trivial

theorem standDown_safe {reason : String} (hinv : ledger.Consistent ext avoided) :
    Safe (protocol ext avoided) (fun _ _ => True) (standDown ext reason) ledger :=
  Safe.bind (ask_free (.setNotReady _) rfl enduring_true hinv trivial) fun _ _ hw _ =>
    waitForOperatorRecovery_safe hw

theorem awaitCoordinatorRecovery_safe (hinv : ledger.Consistent ext avoided) :
    Safe (protocol ext avoided) (fun _ _ => True) (awaitCoordinatorRecovery ext) ledger := by
  refine Safe.bind (ask_free (.setNotReady _) rfl enduring_true hinv trivial) ?_
  intro _ w hw _
  refine Safe.bind (ask_free .accepting rfl enduring_true hw trivial) ?_
  intro accepting w' hw' _
  split
  · exact (awaitRecovery_safe hw').bind fun _ _ hw'' _ => Safe.pure hw'' trivial
  · exact Safe.pure hw' trivial

theorem giveUp_safe {reason : String} (hinv : ledger.Consistent ext avoided) :
    Safe (protocol ext avoided) (fun _ _ => True) (giveUp ext reason) ledger :=
  Safe.bind (ask_free (.setNotReady _) rfl enduring_true hinv trivial) fun _ _ hw _ =>
    Safe.pure hw trivial

/-- The worker marks itself drained only where no job holds a claim. -/
theorem drainRound_safe (hinv : ledger.Consistent ext avoided) (hquiet : ledger.Quiet) :
    Safe (protocol ext avoided) (fun _ => Ledger.Quiet) drainRound ledger := by
  have hchanged : ∀ observed w, w.Consistent ext avoided → w.Quiet →
      Safe (protocol ext avoided) (fun _ => Ledger.Quiet) (do
        ask (.drainChanged observed)
        return (Sum.inl () : Unit ⊕ Bool)) w := by
    intro observed w hw hquiet
    refine Safe.bind (ask_free (.drainChanged observed) rfl enduring_quiet hw hquiet) ?_
    intro _ w' hw' hquiet'
    exact Safe.pure hw' hquiet'
  refine Safe.bind (ask_free .accepting rfl enduring_quiet hinv hquiet) ?_
  intro accepting w hw hquiet
  split
  · refine Safe.bind (ask_free .drainState rfl enduring_quiet hw hquiet) ?_
    intro state w' hw' hquiet'
    cases state with
    | accepting => exact Safe.pure hw' hquiet'
    | draining =>
        refine Safe.bind (ask_safe .markDrained enduring_quiet (Q := fun _ => Ledger.Quiet) hw'
          hquiet' (fun _ h => h) ?_) ?_
        · intro w answer _ hquiet heq
          subst heq
          exact hquiet
        · intro _ w'' hw'' hquiet''
          exact hchanged .draining w'' hw'' hquiet''
    | drained => exact hchanged .drained w' hw' hquiet'
  · exact Safe.pure hw hquiet

theorem waitUntilAccepting_safe (hinv : ledger.Consistent ext avoided) (hquiet : ledger.Quiet) :
    Safe (protocol ext avoided) (fun _ => Ledger.Quiet) waitUntilAccepting ledger := by
  refine Safe.loop (fun _ => Ledger.Quiet) hinv hquiet ?_
  intro _ w hw hquiet
  refine (drainRound_safe hw hquiet).mono ?_
  intro outcome w' hw' hquiet'
  rcases outcome with _ | accepting
  · exact hquiet'
  · exact Safe.pure hw' hquiet'

/-! ## Polling -/

/-- While the worker polls, no job holds a claim. -/
def roundQuiet : Nat ⊕ Ending → Ledger → Prop
  | .inl _, ledger => ledger.Quiet
  | .inr _, _ => True

theorem claimRound_safe {attempt : Nat} (hinv : ledger.Consistent ext avoided)
    (hquiet : ledger.Quiet) :
    Safe (protocol ext avoided) roundQuiet (claimRound ext deployment attempt) ledger := by
  refine Safe.bind (ask_safe .claim enduring_quiet (Q := fun _ w => w.Quiet) hinv hquiet
    (fun _ h => h) ?_) fun answer w hw hquiet => ?_
  · intro w answer _ hquiet heq
    subst heq
    exact hquiet
  have hgiveUp : ∀ reason, Safe (protocol ext avoided) roundQuiet
      (do return Sum.inr (← giveUp ext reason)) w := fun reason =>
    (giveUp_safe hw).bind fun _ _ hw' _ => Safe.pure hw' trivial
  rcases answer with error | outcome
  · cases error with
    | authentication status => exact hgiveUp _
    | unresolvedJob =>
        exact (awaitCoordinatorRecovery_safe hw).bind fun _ _ hw' _ => Safe.pure hw' trivial
    | transient message =>
        refine Safe.bind (ask_held (.sleep _) rfl rfl (P := Ledger.Quiet) hw hquiet) ?_
        exact fun _ _ hw' hquiet' => Safe.pure hw' hquiet'
    | _ => exact hgiveUp _
  · cases outcome with
    | noWork =>
        refine Safe.bind (ask_free (.idle _) rfl enduring_quiet hw hquiet) ?_
        exact fun _ _ hw' hquiet' => Safe.pure hw' hquiet'
    | claimed job =>
        -- a settlement that failed is followed by a pause, not by another claim
        refine (processClaim_safe hw hquiet).bind ?_
        intro outcome w' hw' hsettled
        rcases outcome with error | value
        · exact (standDown_safe hw').bind fun _ _ hw'' _ => Safe.pure hw'' trivial
        · exact Safe.pure hw' (hsettled value rfl)

theorem pollRound_safe {attempt : Nat} (hinv : ledger.Consistent ext avoided)
    (hquiet : ledger.Quiet) :
    Safe (protocol ext avoided) roundQuiet (pollRound ext deployment attempt) ledger := by
  refine Safe.bind (ask_free .accepting rfl enduring_quiet hinv hquiet) ?_
  intro accepting w hw hquiet
  split
  · refine (waitUntilAccepting_safe hw hquiet).bind ?_
    intro goOn w' hw' hquiet'
    split
    · exact claimRound_safe hw' hquiet'
    · exact Safe.pure hw' trivial
  · exact Safe.pure hw trivial

theorem poll_safe (hinv : ledger.Consistent ext avoided) (hquiet : ledger.Quiet) :
    Safe (protocol ext avoided) (fun _ _ => True) (poll ext deployment) ledger := by
  refine Safe.loop (fun _ => Ledger.Quiet) hinv hquiet ?_
  intro _ w hw hquiet
  refine (pollRound_safe hw hquiet).mono ?_
  intro outcome w' hw' hround
  rcases outcome with attempt | ending
  · exact hround
  · exact Safe.pure hw' trivial

theorem lifetime_safe (hinv : ledger.Consistent ext avoided) :
    Safe (protocol ext avoided) (fun _ _ => True) (lifetime ext deployment) ledger := by
  refine (recover_safe hinv).bind ?_
  intro outcome w hw hsettled
  rcases outcome with error | value
  · exact (standDown_safe hw).bind fun _ _ hw' _ => Safe.pure hw' trivial
  · refine Safe.bind (ask_free .clearReadiness rfl enduring_quiet hw (hsettled value rfl)) ?_
    intro _ w' hw' hquiet
    refine (waitUntilAccepting_safe hw' hquiet).bind ?_
    intro goOn w'' hw'' hquiet'
    split
    · exact poll_safe hw'' hquiet'
    · exact Safe.pure hw'' trivial

/-- The worker task, started on any consistent ledger. -/
theorem run_safe (hinv : ledger.Consistent ext avoided) :
    Safe (protocol ext avoided) (fun _ _ => True) (run ext deployment) ledger := by
  refine Safe.loop (fun _ _ => True) hinv trivial ?_
  intro _ w hw _
  refine (lifetime_safe hw).bind ?_
  intro ending w' hw' _
  refine Safe.pure hw' ?_
  cases ending with
  | resume => trivial
  | stop => exact Safe.pure hw' trivial

end Worker

end PackageHarness
