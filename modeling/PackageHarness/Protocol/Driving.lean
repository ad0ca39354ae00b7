/-
# PackageHarness.Protocol.Driving — assertions about a run that the controller drives.

`Driving` relates the controller's in-memory job to the ledger: nothing has been concluded yet, and
saving the job now is permitted. `Stage` adds what the algorithm has established so far, and the
rules at the end say which steps of controller code keep a stage.
-/
import PackageHarness.Protocol.Rules
import PackageHarness.Runner.Stabilization

namespace PackageHarness

open Interaction Routine

/-- The protocol as code acting for `run` sees it. -/
abbrev runProtocol (ext : Externals) (avoided : Defect → Prop) (run : RunId) :
    Discipline RunnerRequest RunnerRequest.Answer Ledger :=
  (protocol ext avoided).comap (.runner run) fun _ answer => answer

section Requests

variable {ext : Externals} {avoided : Defect → Prop} {run : RunId} {ledger : Ledger}

/-- One request for a run: permitted, and followed by whatever holds after every answer. -/
theorem Runner.ask_safe (request : RunnerRequest) {Q : request.Answer → Ledger → Prop}
    (hinv : ledger.Consistent ext avoided)
    (hpermits : ledger.Permits ext avoided (.runner run request))
    (hanswer : ∀ answer after, ledger.RunnerAnswers run request answer after →
      (∀ defect, avoided defect → ¬ defect.ShownBy (.runner run request) answer after) →
      after.Consistent ext avoided → Q answer after) :
    Safe (runProtocol ext avoided run) Q (Runner.ask request) ledger := by
  have hheld : (protocol ext avoided).Still (.runner run request) := protocol_still rfl
  have hstill : (runProtocol ext avoided run).Still request := hheld
  refine Safe.request_still hstill hinv hpermits ?_
  intro answer after hanswer hinv'
  obtain ⟨_, rfl, hanswers, havoids⟩ := hanswer
  exact Safe.pure hinv' (hanswer _ after hanswers havoids hinv')

/-- A save either leaves the ledger as it was, and says so, or replaces the record. -/
theorem Runner.save_safe {site : SaveSite} {record : RunRecord}
    {Q : Except StoreError Unit → Ledger → Prop} (hinv : ledger.Consistent ext avoided)
    (hid : record.id = run) (haccepts : ledger.Accepts ext avoided record)
    (hothers : ledger.QuietExcept run)
    (hunchanged : ∀ error, (∀ defect, avoided defect →
        ¬ defect.ShownBy (.runner run (.save site record)) (.error error) ledger) →
      Q (.error error) ledger)
    (hwritten : ∀ answer, (∀ defect, avoided defect →
        ¬ defect.ShownBy (.runner run (.save site record)) answer (ledger.write record)) →
      Q answer (ledger.write record)) :
    Safe (runProtocol ext avoided run) Q (Runner.save site record) ledger := by
  refine Runner.ask_safe (.save site record) hinv ⟨hid, haccepts, hothers⟩
    fun answer after hanswers havoids _ => ?_
  rcases Ledger.saves_cases hanswers.1 hanswers.2 with ⟨hsame, error, hanswer⟩ | hafter
  · subst hsame hanswer
    exact hunchanged error havoids
  · subst hafter
    exact hwritten answer havoids

/-- Requests that leave the ledger as it is, whatever they are answered. -/
def Runner.Undisturbing : RunnerRequest → Prop
  | .pm call => call ≠ .listPackages .preflight
  | .save _ _ | .enter _ | .get _ => False
  | _ => True

theorem Runner.Undisturbing.same {request : RunnerRequest} {answer : request.Answer}
    {after : Ledger} (h : Runner.Undisturbing request)
    (hanswers : ledger.RunnerAnswers run request answer after) : after = ledger := by
  cases request with
  | pm call =>
      cases call with
      | listPackages purpose =>
          cases purpose with
          | preflight => exact absurd rfl h
          | _ => exact hanswers
      | _ => exact hanswers
  | save site record => exact h.elim
  | enter point => exact h.elim
  | get id => exact h.elim
  | _ => exact hanswers

/-- Code that disturbs nothing and mutates only what it is armed for leaves the ledger alone. -/
theorem Runner.undisturbing_safe {α : Type} {allowed : RunnerRequest → Prop} {post : α → Prop}
    {p : Runner α} (h : Within allowed post p) (hinv : ledger.Consistent ext avoided)
    (hundisturbing : ∀ request, allowed request → Runner.Undisturbing request)
    (harmed : ∀ call target, allowed (.pm call) → call.mutates = some target →
      ledger.Armed run call target) :
    Safe (runProtocol ext avoided run) (fun a after => after = ledger ∧ post a) p ledger := by
  refine h.safe (· = ledger) hinv rfl ?_ ?_ ?_
  · intro request _ hallowed _ heq
    subst heq
    have hundisturbed := hundisturbing request hallowed
    cases request with
    | pm call => exact ⟨fun h => absurd h hundisturbed, fun target => harmed call target hallowed⟩
    | save site record => exact hundisturbed.elim
    | enter point => exact hundisturbed.elim
    | _ => trivial
  · intro request _ _ after hallowed _ heq hanswer
    subst heq
    obtain ⟨_, _, hanswers, _⟩ := hanswer
    exact (hundisturbing request hallowed).same hanswers
  · -- nothing moves on its own while a request for a run is pending
    intro request _ after _ _ _ hdrift
    obtain ⟨hfree, _⟩ := hdrift
    cases hfree

/-- Observing code does not touch the ledger. -/
theorem Observes.safe {α : Type} {post : α → Prop} {p : Runner α}
    (h : Within Runner.Observes post p) (hinv : ledger.Consistent ext avoided) :
    Safe (runProtocol ext avoided run) (fun a after => after = ledger ∧ post a) p ledger := by
  refine Runner.undisturbing_safe h hinv ?_ ?_
  · intro request hobserves
    cases request with
    | pm call => exact hobserves.1
    | save site record => exact hobserves
    | enter point => exact hobserves
    | get id => exact hobserves
    | _ => trivial
  · intro call target hobserves hmutates
    have hnone : call.mutates = none := hobserves.2
    simp [hnone] at hmutates

end Requests

/-! ## The job in memory -/

/-- A claimed job without a worker error that it is safe to save. -/
structure Carried (ext : Externals) (avoided : Defect → Prop) (run : RunId) (ledger : Ledger)
    (job : Job) : Prop where
  named : job.request.runId = run
  noError : job.worker.workerError = none
  noBody : job.worker.pendingCompletionBody = none
  noHold : job.worker.manualRecovery = none
  token : job.worker.claimToken.isSome
  unheld : ledger.Unheld run
  durable : ∃ old, ledger.store run = some old ∧ old.job.Evolves avoided job
  sound : job.Sound ext avoided ledger.preflight

/-- A job that is being driven: it has no result yet and its cleanup is undecided. -/
structure Driving (ext : Externals) (avoided : Defect → Prop) (run : RunId) (ledger : Ledger)
    (job : Job) : Prop extends Carried ext avoided run ledger job where
  unconcluded : job.result = none
  undecided : job.cleanup = .pending

/-- What the controller leaves behind when it fails. -/
def LeftOpen (avoided : Defect → Prop) (run : RunId) (ledger : Ledger) : Prop :=
  ∃ record, ledger.store run = some record ∧ record.worker.claimToken.isSome ∧
    record.worker.workerError = none ∧ record.worker.pendingCompletionBody = none ∧
    record.worker.manualRecovery = none ∧ (avoided .doublesOutcome → record.result = none)

/-- The durable record of the run says that its target needs cleanup. -/
def DurablyRequired (run : RunId) (ledger : Ledger) : Prop :=
  ∃ record, ledger.store run = some record ∧ record.worker.cleanupRequired = true

namespace Carried

variable {ext : Externals} {avoided : Defect → Prop} {run : RunId} {ledger : Ledger} {job : Job}

theorem not_delivered (h : Carried ext avoided run ledger job) :
    ¬ job.worker.pendingCompletionBody.isSome :=
  Option.not_isSome_iff_eq_none.mpr h.noBody

theorem not_rendered (h : Carried ext avoided run ledger job) {body : String} :
    ¬ job.worker.pendingCompletionBody = some body :=
  Option.eq_none_iff_forall_ne_some.mp h.noBody body

theorem not_freed (h : Carried ext avoided run ledger job) :
    ¬ job.worker.claimToken = none :=
  Option.isSome_iff_ne_none.mp h.token

/-- A state that a job evolved from cannot know more than the job does. -/
theorem old_open {old : Job} (h : old.Evolves avoided job)
    (hsound : job.Sound ext avoided ledger.preflight)
    (htoken : job.worker.claimToken.isSome) (hbody : job.worker.pendingCompletionBody = none) :
    old.worker.claimToken.isSome ∧ old.worker.pendingCompletionBody = none := by
  constructor
  · by_cases hnone : old.worker.claimToken = none
    · have hjob := h.token hnone
      simp [hjob] at htoken
    · exact Option.isSome_iff_ne_none.mpr hnone
  · by_cases hold : old.worker.pendingCompletionBody = none
    · exact hold
    · obtain ⟨body, hsome⟩ := Option.ne_none_iff_exists'.mp hold
      rcases h.body body hsome with hjob | hacknowledged
      · simp [hbody] at hjob
      · have hopen := hsound.not_acknowledged htoken
        simp [hacknowledged] at hopen

theorem old_noError {old : Job} (h : old.Evolves avoided job)
    (herror : job.worker.workerError = none) : old.worker.workerError = none := by
  by_cases hold : old.worker.workerError = none
  · exact hold
  · have hjob := h.failed (Option.isSome_iff_ne_none.mpr hold)
    simp [herror] at hjob

theorem old_unconcluded {old : Job} (h : old.Evolves avoided job) (hresult : job.result = none) :
    old.result = none := by
  by_cases hold : old.result = none
  · exact hold
  · obtain ⟨result, hsome⟩ := Option.ne_none_iff_exists'.mp hold
    have hjob := h.result result hsome
    simp [hresult] at hjob

theorem leftOpen (h : Carried ext avoided run ledger job) (hresult : job.result = none) :
    LeftOpen avoided run ledger := by
  obtain ⟨old, hold, hevolves⟩ := h.durable
  obtain ⟨htoken, hbody⟩ := old_open hevolves h.sound h.token h.noBody
  exact ⟨old, hold, htoken, old_noError hevolves h.noError, hbody, h.unheld old hold,
    fun _ => old_unconcluded hevolves hresult⟩

theorem accepts {record : RunRecord} (h : Carried ext avoided run ledger record.job) :
    record.id = run ∧ ledger.Accepts ext avoided record := by
  have hid : record.id = run := h.named
  refine ⟨hid, ?_, h.sound⟩
  rw [hid]
  exact h.durable

theorem others (h : Carried ext avoided run ledger job) (hinv : ledger.Consistent ext avoided) :
    ledger.QuietExcept run := by
  obtain ⟨old, hold, hevolves⟩ := h.durable
  exact hinv.quietExcept hold (old_open hevolves h.sound h.token h.noBody).1

/-- The job stays safe to save once it has been saved. -/
theorem write {record : RunRecord} (h : Carried ext avoided run ledger record.job) :
    Carried ext avoided run (ledger.write record) record.job := by
  have hid : record.id = run := h.named
  have hwritten : (ledger.write record).store run = some record.persisted := by
    rw [← hid]
    exact RunStore.write_same ..
  refine { h with
    unheld := fun found hfound => ?_
    durable := ⟨record.persisted, hwritten, Job.Evolves.refl _⟩
    sound := h.sound }
  cases hwritten.symm.trans hfound
  exact h.noHold

end Carried

namespace Driving

variable {ext : Externals} {avoided : Defect → Prop} {run : RunId} {ledger : Ledger} {job : Job}

theorem write {record : RunRecord} (h : Driving ext avoided run ledger record.job) :
    Driving ext avoided run (ledger.write record) record.job :=
  { h with toCarried := h.toCarried.write }

/-- A driven run whose durable record requires cleanup may mutate its target, keeping volumes. -/
theorem armed (h : Driving ext avoided run ledger job) (hrequired : DurablyRequired run ledger)
    {call : PmCall} (hvolumes : call.deletesVolumes = false) :
    ledger.Armed run call job.target := by
  obtain ⟨old, hold, hevolves⟩ := h.durable
  obtain ⟨record, hrecord, hneeds⟩ := hrequired
  cases hold.symm.trans hrecord
  refine ⟨old, hold, ?_, hneeds, fun hpassed => ?_, fun hdeletes => by simp [hvolumes] at hdeletes⟩
  · unfold Job.target
    rw [hevolves.request]
  · -- a cleanup that is durably passed would be passed in memory too
    have hjob := hevolves.passed hpassed
    simp [h.undecided] at hjob

/-- While no cleanup is required, the plan is free to change. -/
theorem replan (h : Driving ext avoided run ledger job)
    (huntouched : job.worker.cleanupRequired = false) (packages : List PackageSummary)
    (plan : TargetRecoveryPlan) :
    Driving ext avoided run ledger { job with
      initialPackages := packages
      worker := { job.worker with targetRecovery := plan } } where
  named := h.named
  unconcluded := h.unconcluded
  noError := h.noError
  noBody := h.noBody
  noHold := h.noHold
  token := h.token
  unheld := h.unheld
  undecided := h.undecided
  durable := by
    obtain ⟨old, hold, hevolves⟩ := h.durable
    exact ⟨old, hold, { hevolves with request := hevolves.request }⟩
  sound := { h.sound with
    planned := fun hrequired => by
      have hrequired : job.worker.cleanupRequired = true := hrequired
      simp [huntouched] at hrequired
    rendered := fun body hbody => absurd hbody h.not_rendered }

/-- Requiring cleanup is permitted once the plan is known. -/
theorem require (h : Driving ext avoided run ledger job)
    (hplanned : job.Planned ledger.preflight) :
    Driving ext avoided run ledger { job with
      worker := { job.worker with cleanupRequired := true } } where
  named := h.named
  unconcluded := h.unconcluded
  noError := h.noError
  noBody := h.noBody
  noHold := h.noHold
  token := h.token
  unheld := h.unheld
  undecided := h.undecided
  durable := by
    obtain ⟨old, hold, hevolves⟩ := h.durable
    exact ⟨old, hold, { hevolves with required := fun _ => rfl }⟩
  sound := { h.sound with
    untouched := fun huntouched => by simp at huntouched
    touched := fun _ => by
      have hundecided := h.undecided
      simp [hundecided]
    planned := fun _ => hplanned
    rendered := fun body hbody => absurd hbody h.not_rendered
    delivered := fun _ hbody => absurd hbody h.not_delivered
    freed := fun _ _ hfree => absurd hfree h.not_freed
    held := fun _ _ => rfl }

end Driving

/-! ## Stages -/

/-- A property of the in-memory job that saving the job does not disturb. -/
def Stable (X : Job → Ledger → Prop) : Prop :=
  ∀ (record : RunRecord) (ledger : Ledger), X record.job ledger → X record.job (ledger.write record)

namespace Runner

section Stage

variable (ext : Externals) (avoided : Defect → Prop) (run : RunId)

/-- The controller drives the run and has established `X`. -/
def Stage (X : Job → Ledger → Prop) (s : Execution) (ledger : Ledger) : Prop :=
  s.cleanupAuthorized = s.record.worker.cleanupRequired ∧
    Driving ext avoided run ledger s.record.job ∧ X s.record.job ledger

/-- The controller drives the run; all that is known when the algorithm has failed. -/
abbrev Underway : Execution → Ledger → Prop := Stage ext avoided run fun _ _ => True

/-- Code that leads from stage `X` to stage `Y`; where it fails, the run is still underway. -/
abbrev Advances {α : Type} (X : Job → Ledger → Prop) (m : Algorithm α)
    (Y : α → Job → Ledger → Prop) : Prop :=
  Meets (runProtocol ext avoided run) (Stage ext avoided run X) m
    (fun a => Stage ext avoided run (Y a)) (fun _ => Underway ext avoided run)

end Stage

variable {ext : Externals} {avoided : Defect → Prop} {run : RunId} {X Y : Job → Ledger → Prop}
  {α : Type}

theorem Stage.underway {s : Execution} {ledger : Ledger} (h : Stage ext avoided run X s ledger) :
    Underway ext avoided run s ledger := ⟨h.1, h.2.1, trivial⟩

/-- Updates that keep the job keep the stage. -/
theorem modify_meets {ε : Type} {F : ε → Execution → Ledger → Prop} {f : RunRecord → RunRecord}
    (hjob : ∀ record, (f record).job = record.job) :
    Meets (runProtocol ext avoided run) (Stage ext avoided run X)
      (.update (Execution.modify f)) (fun _ => Stage ext avoided run X) F := by
  refine Meets.update ?_
  intro s ledger _ h
  have hs := hjob s.record
  obtain ⟨hauthorized, hdriving, hX⟩ := h
  refine ⟨?_, ?_, ?_⟩
  · show s.cleanupAuthorized = (f s.record).job.worker.cleanupRequired
    rw [hs]
    exact hauthorized
  · show Driving ext avoided run ledger (f s.record).job
    rw [hs]
    exact hdriving
  · show X (f s.record).job ledger
    rw [hs]
    exact hX

/-- A save keeps what writing the record keeps, whether it succeeds or fails; after success memory
is durable. -/
theorem saveRecord_meets' {P : Execution → Ledger → Prop}
    (hP : ∀ s ledger, P s ledger → Carried ext avoided run ledger s.record.job)
    (hwrite : ∀ s ledger, P s ledger → P s (ledger.write s.record)) (site : SaveSite) :
    Meets (runProtocol ext avoided run) P (saveRecord site)
      (fun _ s ledger => P s ledger ∧ ledger.store run = some s.record.persisted) (fun _ => P) := by
  refine Meets.bind_read fun t => ?_
  refine Meets.bind (Q := fun answer s ledger => P s ledger ∧
    (answer = .ok () → ledger.store run = some s.record.persisted)) (Meets.run ?_) ?_
  · intro s ledger hinv hpre
    obtain ⟨rfl, h⟩ := hpre
    have hcarried := hP t ledger h
    obtain ⟨hid, haccepts⟩ := hcarried.accepts
    refine Runner.save_safe hinv hid haccepts (hcarried.others hinv) ?_
      fun answer _ => ⟨hwrite t ledger h, fun _ => ?_⟩
    · exact fun error _ => ⟨h, fun hok => by cases hok⟩
    · rw [← hid]
      exact RunStore.write_same ..
  · intro outcome
    rcases outcome with error | _
    · exact Meets.throw fun s ledger _ h => h.1
    · exact Meets.pure fun s ledger _ h => ⟨h.1, h.2 rfl⟩

theorem saveRecord_meets (hX : Stable X) (site : SaveSite) :
    Meets (runProtocol ext avoided run) (Stage ext avoided run X) (saveRecord site)
      (fun _ s ledger => Stage ext avoided run X s ledger ∧
        ledger.store run = some s.record.persisted)
      (fun _ => Stage ext avoided run X) :=
  saveRecord_meets' (fun _ _ h => h.2.1.toCarried)
    (fun s ledger h => ⟨h.1, h.2.1.write, hX s.record ledger h.2.2⟩) site

/-- Observing code keeps whatever is known. -/
theorem run_meets {σ ε : Type} {P : σ → Ledger → Prop} {F : ε → σ → Ledger → Prop}
    {p : Runner α} (h : Within Observes (fun _ => True) p) :
    Meets (runProtocol ext avoided run) P (.run p) (fun _ => P) F :=
  Meets.run fun s ledger hinv hP => (Observes.safe h hinv).mono (by
    intro a _ _ hpost
    obtain ⟨rfl, _⟩ := hpost
    exact hP)

theorem look_meets {σ ε : Type} {P : σ → Ledger → Prop} {F : ε → σ → Ledger → Prop}
    {p : Runner α} (h : Within Looks (fun _ => True) p) :
    Meets (runProtocol ext avoided run) P (.run p) (fun _ => P) F :=
  run_meets (h.mono (fun _ => Looks.observes) fun _ h => h)

theorem ask_meets {σ ε : Type} {P : σ → Ledger → Prop} {F : ε → σ → Ledger → Prop}
    {request : RunnerRequest} (h : Observes request) :
    Meets (runProtocol ext avoided run) P (.run (ask request)) (fun _ => P) F :=
  run_meets (Within.ask h)

theorem phase_meets (hX : Stable X) (next : ExecutionPhase) :
    Meets (runProtocol ext avoided run) (Stage ext avoided run X) (phase next)
      (fun _ s ledger => Stage ext avoided run X s ledger ∧
        ledger.store run = some s.record.persisted)
      (fun _ => Stage ext avoided run X) := by
  refine Meets.bind (ask_meets trivial) ?_
  intro time
  refine Meets.bind (modify_meets fun record => rfl) fun _ => ?_
  refine Meets.bind (saveRecord_meets hX _) ?_
  intro _
  refine Meets.bind_read_any fun s => ?_
  exact ask_meets trivial

theorem saveFailure_meets (hX : Stable X) (site : SaveSite) :
    Advances ext avoided run X (saveFailure site) fun _ => X :=
  Meets.mapError ((saveRecord_meets hX site).weaken (fun _ _ _ h => h) (fun _ _ _ _ h => h.1)
    fun _ _ _ _ h => h.underway)

theorem ofExcept_meets {result : Except Failure α} :
    Advances ext avoided run X (.ofExcept result) fun _ => X :=
  Meets.ofExcept (fun _ _ _ _ _ h => h) fun _ _ _ _ _ h => h.underway

theorem checkControl_meets :
    Advances ext avoided run X checkControl fun _ => X :=
  Meets.bind (ask_meets trivial) fun _ => ofExcept_meets

theorem phaseFailure_meets (hX : Stable X) (next : ExecutionPhase) :
    Advances ext avoided run X (phaseFailure next) fun _ => X := by
  refine Meets.bind (Meets.mapError ?_) fun _ => checkControl_meets
  exact (phase_meets hX next).weaken (fun _ _ _ h => h) (fun _ _ _ _ h => h.1)
    fun _ _ _ _ h => h.underway

theorem failWhen_meets {condition : Bool} {failure : Failure} :
    Advances ext avoided run X (failWhen condition failure) fun _ => X := by
  unfold failWhen
  split
  · exact Meets.throw fun _ _ _ h => h.underway
  · exact Meets.pure fun _ _ _ h => h

theorem callOrFail_meets {call : PmCall} {failure : PackageManagerError → Failure}
    (hobserves : Observes (.pm call)) :
    Advances ext avoided run X (callOrFail call failure) fun _ => X := by
  refine Meets.bind (ask_meets hobserves) ?_
  intro answer
  rcases answer with error | reply
  · exact Meets.throw fun _ _ _ h => h.underway
  · exact Meets.pure fun _ _ _ h => h

end Runner

end PackageHarness
