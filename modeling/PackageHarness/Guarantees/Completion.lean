/-
# PackageHarness.Guarantees.Completion — what is sent for a run.

Every body sent for a run is the durable one and the same one, and none is sent after an
acknowledgement. In runs without the matching defect, a completion carries the outcome that was
durable first, and every delivery that starts can build its completion.
-/
import PackageHarness.Guarantees.WriteAhead

namespace PackageHarness.Machine

open Interaction

variable {ext : Externals} {avoided : Defect → Prop} {machine later : Machine} {run : RunId}
  {body : String}

/-- The body that is being sent is durable, and the run is not acknowledged. -/
theorem Reachable.sends_durable (h : Reachable ext avoided machine)
    (hsend : machine.Requests (.completeRaw run body)) :
    ∃ record, machine.Durable run record ∧ record.worker.pendingCompletionBody = some body ∧
      record.worker.completionAcknowledged = false := by
  obtain ⟨record, hrecord, hbody⟩ := h.permits hsend
  refine ⟨record, hrecord, hbody, ?_⟩
  have hsound := h.sound hrecord
  exact hsound.not_acknowledged (hsound.token_of_pending (Option.isSome_iff_exists.mpr ⟨_, hbody⟩))

/-- No body is sent for a run once its acknowledgement is durable. -/
theorem Reachable.acknowledged_silent (h : Reachable ext avoided machine) {record : RunRecord}
    (hrecord : machine.Durable run record)
    (hacknowledged : record.worker.completionAcknowledged = true)
    (hruns : Runs ext avoided machine later) : ¬ later.Requests (.completeRaw run body) := by
  intro hsend
  obtain ⟨record', hrecord', _, hopen⟩ := (h.runs hruns).sends_durable hsend
  obtain ⟨record'', hrecord'', hevolves⟩ := (h.evolves hruns).store hrecord
  have hsame : record' = record'' := Option.some.inj (hrecord'.symm.trans hrecord'')
  subst hsame
  have hstill : record'.worker.completionAcknowledged = true :=
    hevolves.acknowledged hacknowledged
  simp [hopen] at hstill

/-- Two bodies sent for a run are the same text. -/
theorem Reachable.sends_same (h : Reachable ext avoided machine) {body' : String}
    (hsend : machine.Requests (.completeRaw run body)) (hruns : Runs ext avoided machine later)
    (hsend' : later.Requests (.completeRaw run body')) : body' = body := by
  obtain ⟨record, hrecord, hbody, _⟩ := h.sends_durable hsend
  obtain ⟨record', hrecord', hbody', hopen⟩ := (h.runs hruns).sends_durable hsend'
  obtain ⟨record'', hrecord'', hevolves⟩ := (h.evolves hruns).store hrecord
  have hsame : record' = record'' := Option.some.inj (hrecord'.symm.trans hrecord'')
  subst hsame
  -- an evolved record keeps its body until the acknowledgement
  rcases hevolves.body body hbody with hstill | hacknowledged
  · exact Option.some.inj (hbody'.symm.trans hstill)
  · have hacknowledged : record'.worker.completionAcknowledged = true := hacknowledged
    simp [hopen] at hacknowledged

/-- Bodies are durable before they are sent, never change, and stop with the acknowledgement. -/
theorem completions_are_identical (h : Reachable ext noDefect machine) (run : RunId) :
    (∀ body, machine.Requests (.completeRaw run body) →
      (∃ record, machine.Durable run record ∧
        record.worker.pendingCompletionBody = some body) ∧
      ∀ later body', Runs ext noDefect machine later →
        later.Requests (.completeRaw run body') → body' = body) ∧
    ∀ record, machine.Durable run record → record.worker.completionAcknowledged = true →
      ∀ later body, Runs ext noDefect machine later →
        ¬ later.Requests (.completeRaw run body) := by
  refine ⟨fun body hsend => ⟨?_, fun later body' hruns hsend' => h.sends_same hsend hruns hsend'⟩,
    fun record hrecord hacknowledged later body hruns =>
      h.acknowledged_silent hrecord hacknowledged hruns⟩
  obtain ⟨record, hrecord, hbody, _⟩ := h.sends_durable hsend
  exact ⟨record, hrecord, hbody⟩

/-- The first delivery of a finished job. -/
def atSend : Showing fun machine : Machine =>
    machine.awaits (WorkerRequest.sends Sample.run fun _ => true) &&
    machine.keeps Sample.run fun _ => true :=
  ⟨(start Sample.ext Sample.deployment).replay (Sample.installFails Sample.sends),
    by decide +kernel⟩

theorem atSend_reachable {avoided : Defect → Prop} : Reachable Sample.ext avoided atSend.1 :=
  reachable_start.replay (Or.inl rfl)

theorem first_send_is_durable : ∃ body, atSend.1.Requests (.completeRaw Sample.run body) ∧
    (∃ record, atSend.1.Durable Sample.run record ∧
      record.worker.pendingCompletionBody = some body) ∧
    ∀ later body', Runs Sample.ext noDefect atSend.1 later →
      later.Requests (.completeRaw Sample.run body') → body' = body := by
  obtain ⟨hawaits, _⟩ := Bool.and_eq_true_iff.mp atSend.2
  obtain ⟨body, hsend, _⟩ := requests_send _ _ _ hawaits
  exact ⟨body, hsend, (completions_are_identical atSend_reachable Sample.run).1 body hsend⟩

/-! ## The outcome that is sent -/

/-- The text completes a run with the outcome of `record`: its result, or the code and the summary
of its worker error. -/
def Carries (record : RunRecord) (body : String) : Prop :=
  ∃ outcome workerId claimToken, body = CompleteRequest.body ⟨1, workerId, claimToken, outcome⟩ ∧
    (∀ result, record.result = some result → outcome = .result result) ∧
    ∀ error, record.worker.workerError = some error →
      ∃ error', outcome = .workerError error' ∧ error'.code = error.code ∧
        error'.summary = error.summary

/-- A later state of the job completes it with the outcome that it had before. -/
theorem carries_of_evolves {old new : RunRecord}
    (hevolves : old.job.Evolves (· = .replacesOutcome) new.job) (hrenders : new.job.Renders body) :
    Carries old body := by
  obtain ⟨outcome, workerId, claimToken, hconcludes, hbody⟩ := hrenders
  refine ⟨outcome, workerId, claimToken, hbody, ?_, ?_⟩
  · intro result hresult
    have hnew := hevolves.result result hresult
    cases outcome with
    | result sent =>
        rw [Option.some.inj (hconcludes.1.symm.trans hnew)]
    | workerError sent =>
        rw [hconcludes.1] at hnew
        cases hnew
  · intro error herror
    obtain ⟨error', hnew, hcode, hsummary⟩ := hevolves.error rfl error herror
    cases outcome with
    | result sent =>
        rw [hconcludes.2] at hnew
        cases hnew
    | workerError sent =>
        have hsame : sent = error' := Option.some.inj (hconcludes.2.symm.trans hnew)
        exact ⟨error', by rw [hsame], hcode, hsummary⟩

/-- In runs in which no restart finds an unsent worker error of an earlier process, whatever outcome
was durable first is the one that is sent. -/
theorem outcome_survives_restarts {record : RunRecord}
    (h : Reachable ext (· = .replacesOutcome) machine) (hrecord : machine.Durable run record)
    (hruns : Runs ext (· = .replacesOutcome) machine later)
    (hsend : later.Requests (.completeRaw run body)) : Carries record body := by
  have hlater := h.runs hruns
  obtain ⟨record', hrecord', hbody, _⟩ := hlater.sends_durable hsend
  obtain ⟨record'', hrecord'', hevolves⟩ := (h.evolves hruns).store hrecord
  have hsame : record' = record'' := Option.some.inj (hrecord'.symm.trans hrecord'')
  subst hsame
  exact carries_of_evolves hevolves ((hlater.sound hrecord').rendered body hbody)

theorem Carries.code {record : RunRecord} {error : WorkerError} (h : Carries record body)
    (herror : record.worker.workerError = some error) :
    containsText body error.code.toJson.render = true := by
  obtain ⟨outcome, workerId, claimToken, rfl, _, hkept⟩ := h
  obtain ⟨error', rfl, hcode, _⟩ := hkept error herror
  rw [containsText_iff, ← hcode]
  exact CompleteRequest.code_in_body

/-- The refusal of a core package is durable, and its delivery is about to start. -/
def atRefusal : Showing fun machine : Machine => machine.keeps Sample.run fun record =>
    record.worker.workerError.any (·.code = .unsupportedJob) :=
  ⟨(start Sample.ext Sample.deployment).replay (Sample.coreTarget Sample.delivers),
    by decide +kernel⟩

def refusalAfterRestart : Showing fun machine : Machine =>
    machine.awaits (WorkerRequest.sends Sample.run fun body =>
      !containsText body WorkerErrorCode.unsupportedJob.toJson.render) :=
  ⟨(atRefusal.1.restart Sample.ext Sample.deployment).replay (Sample.coreTarget Sample.sends),
    by decide +kernel⟩

/-- A restart that finds the refusal replaces it by an interruption. -/
theorem restart_replaces_outcome : ¬ ∀ ext machine later run record body,
    Reachable ext noDefect machine → machine.Durable run record →
    Runs ext noDefect machine later → later.Requests (.completeRaw run body) →
    Carries record body := by
  intro hclaim
  have hnone : ∀ defect, ¬ noDefect defect := fun _ h => h
  obtain ⟨record, hrecord, htest⟩ := durable_of_keeps _ _ _ atRefusal.2
  obtain ⟨error, herror, hcode⟩ := (Option.any_eq_true _ _).mp htest
  obtain ⟨body, hsend, hbody⟩ := requests_send _ _ _ refusalAfterRestart.2
  have hcarries := hclaim Sample.ext atRefusal.1 refusalAfterRestart.1 Sample.run record body
    (reachable_start.replay (Or.inr hnone)) hrecord
    (runs_restart.trans (runs_replay (Or.inr hnone))) hsend
  have hnamed := hcarries.code herror
  rw [of_decide_eq_true hcode] at hnamed
  simp [hnamed] at hbody

/-- The moment at which the delivery of a finished job starts. -/
def atDelivery : Showing fun machine : Machine =>
    machine.awaits (WorkerRequest.delivers Sample.run fun record =>
      record.worker.pendingCompletionBody.isNone) &&
    machine.keeps Sample.run fun record => record.result.isSome :=
  ⟨(start Sample.ext Sample.deployment).replay (Sample.installFails Sample.delivers),
    by decide +kernel⟩

theorem atDelivery_reachable {avoided : Defect → Prop} :
    Reachable Sample.ext avoided atDelivery.1 :=
  reachable_start.replay (Or.inl rfl)

/-- A process that dies before it sends the result is succeeded by one that sends it. -/
def atSendAfterRestart : Showing fun machine : Machine =>
    machine.awaits (WorkerRequest.sends Sample.run fun _ => true) :=
  ⟨(atDelivery.1.restart Sample.ext Sample.deployment).replay (Sample.installFails Sample.sends),
    by decide +kernel⟩

theorem result_survives_restart : ∃ record body,
    atDelivery.1.Durable Sample.run record ∧ record.result.isSome = true ∧
      atSendAfterRestart.1.Requests (.completeRaw Sample.run body) ∧ Carries record body := by
  obtain ⟨_, hkeeps⟩ := Bool.and_eq_true_iff.mp atDelivery.2
  obtain ⟨record, hrecord, hresult⟩ := durable_of_keeps _ _ _ hkeeps
  obtain ⟨body, hsend, _⟩ := requests_send _ _ _ atSendAfterRestart.2
  exact ⟨record, body, hrecord, hresult, hsend, outcome_survives_restarts atDelivery_reachable
    hrecord (runs_restart.trans (runs_replay (Or.inl rfl))) hsend⟩

/-! ## Building a completion -/

/-- What remains of `prepareCompletion` is the save of a completion body. -/
def PreparesWithoutFail (config : WorkerConfig) (record : RunRecord) : Prop :=
  ∃ body, Worker.prepareCompletion config record =
    Worker.persist .completionBody "cannot persist completion body" (record.withCompletion body)

theorem prepareCompletion_eq {config : WorkerConfig} {record : RunRecord} {claimToken : String}
    {outcome : CompletionOutcome} (hbody : record.worker.pendingCompletionBody = none)
    (htoken : record.worker.claimToken = some claimToken)
    (houtcome : completionOutcome record = .ok outcome) :
    PreparesWithoutFail config record := by
  refine ⟨CompleteRequest.body ⟨1, config.workerId, claimToken, outcome⟩, ?_⟩
  show (if record.worker.pendingCompletionBody.isSome then _ else _ : Worker.Settle Unit) record = _
  rw [hbody, htoken, houtcome]
  rfl

/-- In runs in which the controller's last save takes no effect that it does not report, every
delivery that starts has exactly one outcome, of its own run, and a claim token. -/
theorem completions_can_be_built {record : RunRecord}
    (h : Reachable ext (· = .doublesOutcome) machine)
    (hdeliver : machine.Requests (.runner run (.enter (.deliverUntilTerminal record))))
    (hbody : record.worker.pendingCompletionBody = none) :
    (record.result.isSome ↔ record.worker.workerError = none) ∧
    record.worker.claimToken.isSome ∧
    (∀ result, record.result = some result → result.runId = run.value) ∧
    ∀ config, PreparesWithoutFail config record := by
  obtain ⟨hid, hdeliverable⟩ := h.permits hdeliver
  have hdurable : machine.Durable run record.persisted := hid ▸ hdeliverable.durable
  have hsound := h.sound hdurable
  rw [RunRecord.persisted_job] at hsound
  have hexclusive : record.result = none ∨ record.worker.workerError = none :=
    hsound.exclusive rfl
  have houtcome := hdeliverable.outcome
  refine ⟨⟨?_, ?_⟩, hdeliverable.token, ?_, ?_⟩
  · intro hresult
    rcases hexclusive with hnone | hnone
    · simp [hnone] at hresult
    · exact hnone
  · intro herror
    rcases houtcome with hresult | hsome
    · exact hresult
    · simp [herror] at hsome
  · intro result hresult
    rw [← hid]
    exact (hsound.concluded result hresult).2
  · intro config
    obtain ⟨outcome, hok⟩ := completionOutcome_ok hsound houtcome hexclusive
    obtain ⟨claimToken, htoken⟩ := Option.isSome_iff_exists.mp hdeliverable.token
    exact prepareCompletion_eq hbody htoken hok

/-- The controller's last save took effect without saying so. -/
def atDoubledDelivery : Showing fun machine : Machine =>
    machine.awaits (WorkerRequest.delivers Sample.run fun record =>
      record.worker.pendingCompletionBody.isNone && record.result.isSome &&
        record.worker.workerError.isSome) :=
  ⟨(start Sample.ext Sample.deployment).replay (Sample.lastSaveUnreported Sample.delivers),
    by decide +kernel⟩

/-- The worker then adds a worker error to a record that has a result already. -/
theorem unreported_save_doubles_outcome : ¬ ∀ ext machine run record,
    Reachable ext noDefect machine →
    machine.Requests (.runner run (.enter (.deliverUntilTerminal record))) →
    record.worker.pendingCompletionBody = none →
    (record.result.isSome ↔ record.worker.workerError = none) := by
  intro hclaim
  obtain ⟨record, hdeliver, htest⟩ := requests_delivery _ _ _ atDoubledDelivery.2
  simp only [Bool.and_eq_true, Option.isNone_iff_eq_none] at htest
  obtain ⟨⟨hbody, hresult⟩, herror⟩ := htest
  have hnone := (hclaim Sample.ext atDoubledDelivery.1 Sample.run record
    (reachable_start.replay (Or.inr fun _ h => h)) hdeliver hbody).mp hresult
  simp [hnone] at herror

theorem delivery_can_be_built : ∃ record,
    atDelivery.1.Requests (.runner Sample.run (.enter (.deliverUntilTerminal record))) ∧
    ∀ config, PreparesWithoutFail config record := by
  obtain ⟨hawaits, _⟩ := Bool.and_eq_true_iff.mp atDelivery.2
  obtain ⟨record, hdeliver, htest⟩ := requests_delivery _ _ _ hawaits
  have hbody : record.worker.pendingCompletionBody = none := Option.isNone_iff_eq_none.mp htest
  exact ⟨record, hdeliver, (completions_can_be_built atDelivery_reachable hdeliver hbody).2.2.2⟩

end PackageHarness.Machine
