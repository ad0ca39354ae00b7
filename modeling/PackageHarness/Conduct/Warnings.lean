/-
# PackageHarness.Conduct.Warnings — a target is touched only after a warning was published.

What the heartbeat reports is what was published last. `Notice` is what matters of a job's progress:
whether a mutating call was made, and whether the published state says that cleanup is required.
Mutating calls are made only under such a warning, and once the target was touched, the warning is
not taken back.
-/
import PackageHarness.Conduct.Idling
import PackageHarness.Conduct.Settling
import PackageHarness.Protocol.Algorithm

namespace PackageHarness

open Interaction Routine

/-- A job's progress, from the outside. -/
structure Notice where
  touched : Bool := false
  announced : Bool := false

namespace Notice

def observe (notice : Notice) : WorkerRequest → Notice
  | .newProgress => {}
  | .runner _ (.publish _ cleanupRequired) => { notice with announced := cleanupRequired }
  | .runner _ (.pm call) => { notice with touched := notice.touched || call.mutates.isSome }
  | _ => notice

def Admits (notice : Notice) : WorkerRequest → Prop
  | .runner _ (.publish _ cleanupRequired) => notice.touched = true → cleanupRequired = true
  | .runner _ (.pm call) => call.mutates.isSome = true → notice.announced = true
  | _ => True

/-- What was touched is announced. -/
def Sound (notice : Notice) : Prop := notice.touched = true → notice.announced = true

theorem Sound.observe {notice : Notice} {request : WorkerRequest} (h : notice.Sound)
    (hadmits : notice.Admits request) : (notice.observe request).Sound := by
  cases request with
  | newProgress => exact fun htouched => htouched
  | runner run asked =>
      cases asked with
      | publish phase cleanupRequired => exact hadmits
      | pm call =>
          intro htouched
          rcases Bool.or_eq_true_iff.mp htouched with hearlier | hmutates
          · exact h hearlier
          · exact hadmits hmutates
      | _ => exact h
  | _ => exact h

end Notice

/-- Any answers, with an eye on what is announced. -/
def announcing : Discipline WorkerRequest WorkerRequest.Answer Notice where
  answer := fun notice request _ after => after = notice.observe request
  drift := fun _ _ _ => False
  guard := Notice.Admits
  inv := Notice.Sound
  inv_answer := by
    intro notice request answer after hsound hadmits hanswer
    subst hanswer
    exact hsound.observe hadmits
  inv_drift := fun _ hdrift => hdrift.elim

/-- The same for code that runs on behalf of a run. -/
abbrev announcingFor (run : RunId) : Discipline RunnerRequest RunnerRequest.Answer Notice :=
  announcing.comap (WorkerRequest.runner run) fun _ answer => answer

/-- Requests that have nothing to do with it. -/
def RunnerRequest.Plain : RunnerRequest → Prop
  | pm call => call.mutates = none
  | publish _ _ => False
  | _ => True

namespace Warnings

open Runner

variable {run : RunId} {notice : Notice} {α : Type}

theorem observe_of_plain {asked : RunnerRequest} (h : asked.Plain) :
    notice.observe (.runner run asked) = notice := by
  cases asked with
  | pm call =>
      have hmutates : call.mutates = none := h
      show { notice with touched := notice.touched || call.mutates.isSome } = notice
      rw [hmutates, Option.isSome_none, Bool.or_false]
  | publish phase cleanupRequired => exact h.elim
  | _ => rfl

theorem admits_of_plain {asked : RunnerRequest} (h : asked.Plain) :
    notice.Admits (.runner run asked) := by
  cases asked with
  | pm call =>
      have hmutates : call.mutates = none := h
      show call.mutates.isSome = true → _
      rw [hmutates]
      exact nofun
  | publish phase cleanupRequired => exact h.elim
  | _ => trivial

/-- One request, with what it does to the notice. -/
theorem announcing_ask (asked : RunnerRequest) {Q : asked.Answer → Notice → Prop}
    (hsound : notice.Sound) (hadmits : notice.Admits (.runner run asked))
    (hQ : ∀ answer, Q answer (notice.observe (.runner run asked))) :
    Safe (announcingFor run) Q (ask asked) notice := by
  refine Safe.request_still (fun _ _ hdrift => hdrift.elim) hsound hadmits ?_
  rintro answer after ⟨_, rfl, rfl⟩ hafter
  exact Safe.pure hafter (hQ _)

/-- Plain code changes nothing. -/
theorem plain_safe {post : α → Prop} {p : Runner α} (h : Within RunnerRequest.Plain post p)
    (hsound : notice.Sound) :
    Safe (announcingFor run) (fun _ after => after = notice) p notice := by
  refine (h.safe (· = notice) hsound rfl ?_ ?_ ?_).mono fun _ _ _ hafter => hafter.1
  · exact fun _ _ hplain _ _ => admits_of_plain hplain
  · rintro asked _ answer _ hplain _ rfl ⟨_, rfl, rfl⟩
    exact observe_of_plain hplain
  · exact fun _ _ _ _ _ _ hdrift => hdrift.elim

theorem Samples.plain {asked : RunnerRequest} (h : Samples asked) : asked.Plain := by
  cases asked with
  | pm call => exact h.1
  | publish phase cleanupRequired => exact h
  | _ => trivial

/-! ## What the controller keeps -/

/-- While the algorithm runs: an authorized cleanup is announced, and what is announced is in the
record. -/
structure Careful (s : Execution) (notice : Notice) : Prop where
  announced : s.cleanupAuthorized = true → notice.announced = true
  required : notice.announced = true → s.record.worker.cleanupRequired = true

/-- Where it has ended early: an authorized cleanup may not be announced yet. -/
structure Stranded (s : Execution) (notice : Notice) : Prop where
  authorized : s.cleanupAuthorized = true → s.record.worker.cleanupRequired = true
  required : notice.announced = true → s.record.worker.cleanupRequired = true

theorem Careful.stranded {s : Execution} (h : Careful s notice) : Stranded s notice :=
  ⟨fun hauthorized => h.required (h.announced hauthorized), h.required⟩

/-- Code of the algorithm, from one assertion to another. -/
abbrev Warns (run : RunId) (P : Execution → Notice → Prop) (m : Algorithm α)
    (Q : α → Execution → Notice → Prop) : Prop :=
  Meets (announcingFor run) P m Q fun _ => Stranded

abbrev KeepsCareful (run : RunId) (m : Algorithm α) : Prop :=
  Warns run Careful m fun _ => Careful

/-- Assertions that do not depend on what a plain step changes. -/
theorem plain_meets {ε : Type} {P : Execution → Notice → Prop} {post : α → Prop} {p : Runner α}
    {F : ε → Execution → Notice → Prop} (h : Within RunnerRequest.Plain post p) :
    Meets (announcingFor run) P (.run p) (fun _ => P) F := by
  refine Meets.run fun s notice hsound hP => ?_
  refine (plain_safe h hsound).mono fun _ after _ hafter => ?_
  rw [hafter]
  exact hP

theorem ask_meets {ε : Type} {P : Execution → Notice → Prop} {asked : RunnerRequest}
    {F : ε → Execution → Notice → Prop} (h : asked.Plain) :
    Meets (announcingFor run) P (.run (ask asked)) (fun _ => P) F :=
  plain_meets (Within.ask h)

/-! ## Saves and phases -/

section Algorithm

variable {ext : Externals} {config : RunnerConfig} {package : ResolvedPackage}
  {P : Execution → Notice → Prop}

theorem saveRecord_meets {site : SaveSite} {P : Execution → Notice → Prop} :
    Meets (announcingFor run) P (saveRecord site) (fun _ => P) fun _ => P := by
  refine Meets.bind_read_any fun s => Meets.bind (ask_meets trivial) fun answer => ?_
  rcases answer with error | _
  · exact Meets.throw fun _ _ _ h => h
  · exact Meets.pure fun _ _ _ h => h

/-- A new phase is announced with what the record says about the cleanup. -/
theorem phase_meets {P Q : Execution → Notice → Prop} {next : ExecutionPhase}
    (hstable : ∀ s notice time, P s notice →
      P (Execution.modify (fun record => record.transition next time) s) notice)
    (hrequired : ∀ s notice, P s notice → notice.announced = true →
      s.record.worker.cleanupRequired = true)
    (hQ : ∀ s notice, P s notice → Q s ⟨notice.touched, s.record.worker.cleanupRequired⟩) :
    Meets (announcingFor run) P (phase next) (fun _ => Q) fun _ => P := by
  refine Meets.bind (ask_meets trivial) fun time => ?_
  refine Meets.bind (Q := fun _ => P) (Meets.update fun s notice _ h => hstable s notice time h)
    fun _ => ?_
  refine Meets.bind saveRecord_meets fun _ => Meets.bind_read fun t => Meets.run ?_
  rintro s notice hsound ⟨rfl, h⟩
  refine announcing_ask (.publish _ _) hsound ?_ fun _ => hQ t notice h
  exact fun htouched => hrequired t notice h (hsound htouched)

theorem phase_careful {next : ExecutionPhase} :
    Meets (announcingFor run) Stranded (phase next) (fun _ => Careful) fun _ => Stranded :=
  phase_meets (fun _ _ _ h => ⟨h.authorized, h.required⟩) (fun _ _ h => h.required)
    fun _ _ h => ⟨h.authorized, id⟩

theorem checkControl_careful : KeepsCareful run checkControl :=
  Meets.bind (ask_meets trivial) fun _ =>
    Meets.ofExcept (fun _ _ _ _ _ h => h) fun _ _ _ _ _ h => h.stranded

theorem phaseFailure_careful {next : ExecutionPhase} : KeepsCareful run (phaseFailure next) :=
  Meets.bind (Meets.mapError (phase_careful.pre fun _ _ _ h => h.stranded)) fun _ =>
    checkControl_careful

theorem saveFailure_meets {site : SaveSite} (hP : ∀ s notice, P s notice → Stranded s notice) :
    Warns run P (saveFailure site) fun _ => P :=
  Meets.mapError (saveRecord_meets.weaken (fun _ _ _ h => h) (fun _ _ _ _ h => h)
    fun _ _ _ _ h => hP _ _ h)

theorem saveFailure_careful {site : SaveSite} : KeepsCareful run (saveFailure site) :=
  saveFailure_meets fun _ _ h => h.stranded

/-- Record updates that leave the worker's part alone. -/
theorem modify_careful {f : RunRecord → RunRecord}
    (hf : ∀ record, (f record).worker = record.worker) :
    KeepsCareful run (.update (Execution.modify f)) := by
  refine Meets.update fun s notice _ h => ⟨h.announced, fun hannounced => ?_⟩
  show (f s.record).worker.cleanupRequired = true
  rw [hf]
  exact h.required hannounced

theorem callOrFail_careful {call : PmCall} {failure : PackageManagerError → Failure}
    (h : call.mutates = none) : KeepsCareful run (callOrFail call failure) := by
  refine Meets.bind (ask_meets h) fun answer => ?_
  rcases answer with error | reply
  · exact Meets.throw fun _ _ _ h => h.stranded
  · exact Meets.pure fun _ _ _ h => h

theorem failWhen_meets {condition : Bool} {failure : Failure}
    (hP : ∀ s notice, P s notice → Stranded s notice) :
    Warns run P (failWhen condition failure) fun _ => P := by
  cases condition with
  | false => exact Meets.pure fun _ _ _ h => h
  | true => exact Meets.throw fun _ _ _ h => hP _ _ h

theorem failWhen_careful {condition : Bool} {failure : Failure} :
    KeepsCareful run (failWhen condition failure) :=
  failWhen_meets fun _ _ h => h.stranded

/-! ## Mutations -/

/-- The cleanup is authorized, and that is announced. -/
structure Warned (s : Execution) (notice : Notice) : Prop extends Careful s notice where
  authorized : s.cleanupAuthorized = true

/-- The authorization is announced before it is made use of. -/
theorem authorizeCleanup_warned : Warns run Careful authorizeCleanup fun _ => Warned := by
  refine Meets.bind_read fun t => ?_
  split
  · next hauthorized =>
    refine Meets.pure ?_
    rintro s notice _ ⟨rfl, h⟩
    exact ⟨h, hauthorized⟩
  · let Required : Execution → Notice → Prop := fun s _ =>
      s.cleanupAuthorized = true ∧ s.record.worker.cleanupRequired = true
    refine Meets.bind (Q := fun _ => Required) (Meets.update fun _ _ _ _ => ⟨rfl, rfl⟩) fun _ => ?_
    refine Meets.bind (saveFailure_meets fun _ _ h => ⟨fun _ => h.2, fun _ => h.2⟩) fun _ => ?_
    refine Meets.bind_read fun t => Meets.run ?_
    rintro s notice hsound ⟨rfl, hauthorized, hrequired⟩
    refine announcing_ask (.publish _ _) hsound ?_ fun _ => ?_
    · exact fun _ => hrequired
    · exact ⟨⟨fun _ => hrequired, fun _ => hrequired⟩, hauthorized⟩

/-- A mutating call under the warning. -/
theorem mutate_warned {call : PmCall} {ε : Type} {F : ε → Execution → Notice → Prop} :
    Meets (announcingFor run) Warned (.run (pm call)) (fun _ => Warned) F := by
  refine Meets.run fun s notice hsound h => ?_
  refine announcing_ask (.pm call) hsound ?_ fun _ => ?_
  · exact fun _ => h.announced h.authorized
  · exact ⟨⟨h.announced, h.required⟩, h.authorized⟩

/-! ## Preflight and baseline -/

theorem preflight_careful : KeepsCareful run (preflight config package) :=
  Meets.bind phaseFailure_careful fun _ => Meets.bind (callOrFail_careful rfl) fun _ =>
    Meets.bind failWhen_careful fun _ => Meets.bind failWhen_careful fun _ =>
      Meets.bind (callOrFail_careful rfl) fun _ => Meets.bind failWhen_careful fun _ =>
        Meets.pure fun _ _ _ h => h

theorem recordInventory_careful {packages : List PackageSummary} :
    KeepsCareful run (recordInventory package packages) :=
  Meets.bind (modify_careful fun _ => rfl) fun _ => Meets.bind saveFailure_careful fun _ =>
    Meets.bind (Meets.update fun _ _ _ h => ⟨h.announced, h.required⟩) fun _ => saveFailure_careful

theorem reuseInstalledBaseline_careful {installed : Option PackageSummary}
    {preview : PreviewSummary} :
    KeepsCareful run (reuseInstalledBaseline package installed preview) := by
  unfold reuseInstalledBaseline
  split
  · refine Meets.bind (ask_meets rfl) fun answer => ?_
    rcases answer with error | details
    · exact Meets.pure fun _ _ _ h => h
    · exact Meets.pure fun _ _ _ h => h
  · exact Meets.pure fun _ _ _ h => h

theorem removeInstalled_warned : Warns run Warned (removeInstalled package) fun _ => Warned := by
  refine Meets.bind mutate_warned fun answer => ?_
  rcases answer with error | _
  · exact failWhen_meets fun _ _ h => h.stranded
  · exact Meets.pure fun _ _ _ h => h

theorem installBypassingSignature_warned {rejection : PackageManagerError} :
    Warns run Warned (installBypassingSignature package rejection) fun _ => Careful := by
  refine Meets.bind mutate_warned fun answer => ?_
  rcases answer with error | _
  · exact Meets.throw fun _ _ _ h => h.stranded
  · exact Meets.bind (Q := fun _ => Careful) (Meets.update fun _ _ _ h => ⟨h.announced, h.required⟩)
      fun _ => saveFailure_careful

theorem installBaseline_warned : Warns run Warned (installBaseline package) fun _ => Careful := by
  refine Meets.bind mutate_warned fun answer => ?_
  rcases answer with error | _
  · dsimp only
    split
    · exact installBypassingSignature_warned
    · exact Meets.throw fun _ _ _ h => h.stranded
  · exact Meets.pure fun _ _ _ h => h.toCareful

theorem prepareBaseline_careful {installed : Option PackageSummary} {reuse : Bool} :
    KeepsCareful run (prepareBaseline package installed reuse) := by
  unfold prepareBaseline
  split
  · exact Meets.pure fun _ _ _ h => h
  · refine Meets.bind authorizeCleanup_warned fun _ => ?_
    dsimp only
    split
    · exact Meets.bind removeInstalled_warned fun _ => installBaseline_warned
    · exact installBaseline_warned

/-! ## Capture and analysis -/

theorem stabilizeAndCapture_careful {side : Side}
    (hside : side = baselineSide ∨ side = candidateSide) {startedAt : Timestamp} {preview : PreviewSummary} {installMs : Nat} :
    KeepsCareful run
      (stabilizeAndCapture ext config package side startedAt preview installMs) := by
  refine Meets.bind phaseFailure_careful fun _ => ?_
  refine Meets.bind (plain_meets (stabilize_samples.mono (fun _ => Samples.plain) fun _ h => h))
    fun _ => ?_
  refine Meets.bind checkControl_careful fun _ => Meets.bind phaseFailure_careful fun _ => ?_
  refine Meets.bind (plain_meets (capture_samples.mono (fun _ => Samples.plain) fun _ h => h))
    fun answer => ?_
  rcases answer with error | evidence
  · exact Meets.throw fun _ _ _ h => h.stranded
  · have hworker : ∀ record, (setEvidence (side.store evidence) record).worker = record.worker := by
      intro record
      rcases hside with rfl | rfl <;> rfl
    exact Meets.bind (modify_careful hworker) fun _ => Meets.bind saveFailure_careful fun _ =>
      Meets.ofExcept (fun _ _ _ _ _ h => h) fun _ _ _ _ _ h => h.stranded

theorem analyzeEvidence_careful : KeepsCareful run (analyzeEvidence ext) := by
  have hpresent : ∀ {side : String} {evidence : Option CaptureEvidence},
      KeepsCareful run (presentEvidence side evidence) := by
    intro side evidence
    cases evidence with
    | none => exact Meets.throw fun _ _ _ h => h.stranded
    | some evidence => exact Meets.pure fun _ _ _ h => h
  exact Meets.bind phaseFailure_careful fun _ => Meets.bind_read_any fun _ =>
    Meets.bind hpresent fun _ => Meets.bind hpresent fun _ =>
      Meets.bind (modify_careful fun _ => rfl) fun _ => Meets.bind (ask_meets trivial) fun _ =>
        Meets.bind (modify_careful fun _ => rfl) fun _ => saveFailure_careful

/-! ## The whole run -/

theorem runBaseline_careful {packages : List PackageSummary} :
    KeepsCareful run (runBaseline ext config package packages) :=
  Meets.bind (Meets.bind phaseFailure_careful fun _ => callOrFail_careful rfl) fun _ =>
    Meets.bind reuseInstalledBaseline_careful fun _ => Meets.bind phaseFailure_careful fun _ =>
      Meets.bind (ask_meets trivial) fun _ => Meets.bind prepareBaseline_careful fun _ =>
        Meets.bind (ask_meets trivial) fun _ => stabilizeAndCapture_careful (Or.inl rfl)

theorem runCandidate_careful : KeepsCareful run (runCandidate ext config package) := by
  refine Meets.bind (Meets.bind phaseFailure_careful fun _ => callOrFail_careful rfl) fun _ =>
    Meets.bind phaseFailure_careful fun _ => Meets.bind authorizeCleanup_warned fun _ =>
      Meets.bind (ask_meets trivial) fun _ => ?_
  refine Meets.bind (Q := fun _ => Careful) (Meets.bind mutate_warned fun answer => ?_) fun _ =>
    Meets.bind (ask_meets trivial) fun _ => stabilizeAndCapture_careful (Or.inr rfl)
  rcases answer with error | _
  · exact Meets.throw fun _ _ _ h => h.stranded
  · exact Meets.pure fun _ _ _ h => h.toCareful

theorem runAlgorithm_careful : KeepsCareful run (runAlgorithm ext config) :=
  Meets.bind (ask_meets trivial) fun _ => Meets.bind_read_any fun _ =>
    Meets.bind preflight_careful fun _ => Meets.bind recordInventory_careful fun _ =>
      Meets.bind runBaseline_careful fun _ => Meets.bind runCandidate_careful fun _ =>
        analyzeEvidence_careful

theorem noteFailure_stranded {result : Except Failure Unit}
    {F : ControllerError → Execution → Notice → Prop} :
    Meets (announcingFor run) Stranded (noteFailure result) (fun _ => Stranded) F := by
  cases result with
  | ok u => exact Meets.pure fun _ _ _ h => h
  | error failure =>
      exact Meets.bind (Meets.update fun _ _ _ h => ⟨h.authorized, h.required⟩) fun _ =>
        Meets.pure fun _ _ _ h => h

/-- The target is reconciled under the warning. -/
theorem reconcileTarget_warned {dnpName : DnpName} {plan : TargetRecoveryPlan}
    {initial : List PackageSummary} {timeout : Duration} {notice : Notice}
    (hannounced : notice.announced = true) (hsound : notice.Sound) :
    Safe (announcingFor run) (fun _ after => after.announced = true)
      (reconcileTarget dnpName plan initial timeout) notice := by
  refine (reconcileTarget_within.safe (fun after => after.announced = true) hsound hannounced
    ?_ ?_ ?_).mono fun _ _ _ h => h.1
  · intro asked after hreconciles _ hafter
    cases asked with
    | pm call => exact fun _ => hafter
    | publish phase required => exact hreconciles.elim
    | _ => trivial
  · rintro asked after answer _ hreconciles _ hafter ⟨_, rfl, rfl⟩
    cases asked with
    | publish phase required => exact hreconciles.elim
    | _ => exact hafter
  · exact fun _ _ _ _ _ _ hdrift => hdrift.elim

theorem cleanUp_stranded :
    Meets (announcingFor run) Stranded (cleanUp config) (fun _ => Stranded)
      fun _ _ _ => True := by
  let Required : Execution → Notice → Prop := fun s _ => s.record.worker.cleanupRequired = true
  let Announced : Execution → Notice → Prop := fun s notice =>
    Required s notice ∧ notice.announced = true
  have hkept : ∀ s notice, Announced s notice → Stranded s notice :=
    fun _ _ h => ⟨fun _ => h.1, fun _ => h.1⟩
  refine Meets.bind_read fun t => ?_
  split
  · next hauthorized =>
    refine Meets.bind (Q := fun _ => Announced) ?_ fun _ => Meets.bind_read_any fun t' => ?_
    · refine (phase_meets (P := Required) (fun _ _ _ h => h) (fun _ _ h _ => h)
        fun _ _ h => ⟨h, h⟩).weaken ?_ (fun _ _ _ _ h => h) fun _ _ _ _ _ => trivial
      rintro s notice _ ⟨rfl, h⟩
      exact h.authorized hauthorized
    refine Meets.bind (Q := fun _ => Announced) (Meets.run ?_) fun outcome => ?_
    · intro s notice hsound h
      exact (reconcileTarget_warned h.2 hsound).mono fun _ _ _ hafter => ⟨h.1, hafter⟩
    refine Meets.bind (Q := fun _ => Stranded) (Meets.update fun s notice _ h => ?_) fun _ => ?_
    · exact hkept _ notice h
    · exact saveRecord_meets.weaken (fun _ _ _ h => h) (fun _ _ _ _ h => h)
        fun _ _ _ _ _ => trivial
  · refine Meets.update ?_
    rintro s notice _ ⟨rfl, h⟩
    exact ⟨h.authorized, h.required⟩

theorem drive_warns :
    Meets (announcingFor run) Careful (drive ext config) (fun _ _ _ => True)
      fun _ _ _ => True := by
  have hsaves : ∀ site, Meets (announcingFor run) Careful (saveRecord site) (fun _ => Careful)
      fun _ _ _ => True := fun site =>
    saveRecord_meets.weaken (fun _ _ _ h => h) (fun _ _ _ _ h => h) fun _ _ _ _ _ => trivial
  refine Meets.bind (ask_meets trivial) fun started => ?_
  refine Meets.bind (Q := fun _ => Careful)
    (Meets.update fun _ _ _ h => ⟨h.announced, h.required⟩) fun _ => ?_
  refine Meets.bind (hsaves .started) fun _ => Meets.bind_read fun t => ?_
  refine Meets.bind (Q := fun _ => Careful) (Meets.run ?_) fun _ => ?_
  · rintro s notice hsound ⟨rfl, h⟩
    refine announcing_ask (.publish _ _) hsound ?_ fun _ => ⟨h.stranded.authorized, id⟩
    exact fun htouched => h.required (hsound htouched)
  refine Meets.bind (Q := fun _ => Stranded) (Meets.attempt ?_) fun result => ?_
  · exact runAlgorithm_careful.weaken (fun _ _ _ h => h) (fun _ _ _ _ h => h.stranded)
      fun _ _ _ _ h => h
  refine Meets.bind noteFailure_stranded fun failure => Meets.bind cleanUp_stranded fun _ => ?_
  refine Meets.bind (ask_meets trivial) fun finished => ?_
  refine Meets.bind (Q := fun _ => Stranded) (Meets.update fun s _ _ h => ?_) fun _ => ?_
  · have hworker : (conclude ext failure finished s.record).worker = s.record.worker := by
      unfold conclude noteCleanupFailure
      simp only
      split <;> rfl
    exact ⟨fun hauthorized => hworker ▸ h.authorized hauthorized,
      fun hannounced => hworker ▸ h.required hannounced⟩
  · exact phase_careful.weaken (fun _ _ _ h => h) (fun _ _ _ _ _ => trivial)
      fun _ _ _ _ _ => trivial

/-- An execution that begins with nothing announced. -/
theorem execute_warns {notice : Notice} (hsound : notice.Sound)
    (hfresh : notice.announced = false) :
    Safe (announcingFor run) (fun _ _ => True) (execute ext config run) notice := by
  refine (announcing_ask (.get run) hsound (admits_of_plain trivial)
    (Q := fun _ after => after = notice) fun _ => observe_of_plain trivial).bind ?_
  rintro answer notice hsound rfl
  rcases answer with error | (_ | record)
  · exact Safe.pure hsound trivial
  · exact Safe.pure hsound trivial
  · dsimp only
    split
    · exact Safe.pure hsound trivial
    · have hcareful : Careful { record := record } notice := by
        refine ⟨fun hauthorized => ?_, fun hannounced => ?_⟩
        · cases hauthorized
        · rw [hfresh] at hannounced
          cases hannounced
      exact (drive_warns _ _ hsound hcareful).bind fun _ _ hsound _ => Safe.pure hsound trivial

end Algorithm

end Warnings

namespace Worker

variable {ext : Externals} {deployment : Deployment} {config : WorkerConfig} {run : RunId}
  {notice : Notice} {α : Type}

/-! ## Settlements -/

/-- What is proved about code of the runner holds of the worker that runs it. -/
theorem onBehalf_announcing {Q : α → Notice → Prop} {p : Runner α}
    (h : Safe (announcingFor run) Q p notice) : Safe announcing Q (onBehalf run p) notice :=
  Safe.translate h

/-- One request that has nothing to do with the notice. -/
theorem ask_unnoticed (request : WorkerRequest) (hsound : notice.Sound)
    (hadmits : notice.Admits request) (hkept : notice.observe request = notice) :
    Safe announcing (fun _ after => after = notice) (ask request) notice := by
  refine Safe.request_still (fun _ _ hdrift => hdrift.elim) hsound hadmits ?_
  rintro answer after hanswer hafter
  exact Safe.pure hafter (hanswer.trans hkept)

theorem announcing_sustains : Sustains announcing fun _ => True := by
  intro request notice hrequest hsound _
  have hquiet : notice.Admits request ∧ notice.observe request = notice := by
    cases request with
    | runner run asked =>
        have hplain : asked.Plain := by
          cases asked with
          | pm call =>
              cases call with
              | listPackages purpose => rfl
              | _ => exact hrequest.elim
          | publish phase required => exact hrequest.elim
          | _ => trivial
        exact ⟨Warnings.admits_of_plain hplain, Warnings.observe_of_plain hplain⟩
    | newProgress => exact hrequest.elim
    | _ => exact ⟨trivial, rfl⟩
  exact (ask_unnoticed _ hsound hquiet.1 hquiet.2).mono fun _ _ _ _ => trivial

theorem recoverTargetIfRequired_warns (cause : RecoveryCause) :
    Sustained announcing (fun _ => True) (recoverTargetIfRequired config cause) := by
  refine Meets.bind_read fun record => ?_
  split
  · exact announcing_sustains.persist.pre fun _ _ _ _ => trivial
  · split
    · exact Meets.throw fun _ _ _ _ => trivial
    · refine Meets.bind (Q := fun _ _ _ => True) ?_ fun packages => ?_
      · refine Meets.bind_read_any fun _ => Meets.bind (Q := fun _ _ _ => True) (Meets.run ?_)
          fun outcome => ?_
        · intro s notice hsound _
          have hplain : (RunnerRequest.pm (.listPackages .restartCheck)).Plain := rfl
          exact (onBehalf_announcing (Warnings.plain_safe (Within.ask hplain) hsound)).mono
            fun _ _ _ _ => trivial
        · rcases outcome with error | packages
          · exact Meets.throw fun _ _ _ _ => trivial
          · exact Meets.pure fun _ _ _ _ => trivial
      · split
        · exact Meets.throw fun _ _ _ _ => trivial
        · refine Meets.bind (Q := fun _ _ notice => notice.announced = true) (Meets.run ?_)
            fun _ => ?_
          · intro s notice hsound _
            exact onBehalf_announcing (Warnings.announcing_ask (.publish _ _) hsound (fun _ => rfl)
              fun _ => rfl)
          refine Meets.bind (Q := fun _ _ _ => True) (Meets.run ?_) fun outcome => ?_
          · intro s notice hsound hannounced
            exact (onBehalf_announcing (Warnings.reconcileTarget_warned hannounced hsound)).mono
              fun _ _ _ _ => trivial
          · exact Meets.bind Sustained.update fun _ => announcing_sustains.persist

/-- Nothing of the job was announced yet. -/
theorem settleClaim_warns :
    Meets announcing (fun _ notice => notice.announced = false) (settleClaim ext deployment)
      (fun _ _ _ => True) fun _ _ _ => True := by
  refine announcing_sustains.settleClaim (P := fun _ notice => notice.announced = false)
    recoverTargetIfRequired_warns ?_ ?_
  · intro record notice hsound hfresh
    exact onBehalf_announcing (Warnings.execute_warns hsound hfresh)
  · refine Meets.bind_read_any fun t => ?_
    split
    · exact Meets.pure fun _ _ _ h => ⟨trivial, fun _ => h⟩
    · refine Meets.bind (Q := fun _ _ notice => notice.announced = false) ?_ fun packages => ?_
      · refine Meets.bind_read_any fun _ => Meets.bind (Q := fun _ _ notice =>
          notice.announced = false) (Meets.run ?_) fun outcome => ?_
        · intro s notice hsound hfresh
          have hplain : (RunnerRequest.pm (.listPackages .claimCheck)).Plain := rfl
          refine (onBehalf_announcing (Warnings.plain_safe (Within.ask hplain) hsound)).mono ?_
          rintro _ _ _ rfl
          exact hfresh
        · rcases outcome with error | packages
          · exact Meets.throw fun _ _ _ _ => trivial
          · exact Meets.pure fun _ _ _ h => h
      · split
        · exact Meets.pure fun _ _ _ h => ⟨trivial, fun _ => h⟩
        · exact Meets.pure fun _ _ _ h => ⟨trivial, fun _ => h⟩

theorem settleRecovered_warns :
    Sustained announcing (fun _ => True) (settleRecovered ext config) :=
  announcing_sustains.settleRecovered recoverTargetIfRequired_warns

theorem supervised_warns {record : RunRecord} {settle : Settle Unit} {P : Notice → Prop}
    (hsettle : Meets announcing (fun _ => P) settle (fun _ _ _ => True) fun _ _ _ => True)
    (hsound : notice.Sound) (h : P notice) :
    Safe announcing (fun _ _ => True) (supervised record settle) notice := by
  unfold supervised
  split
  · exact (hsettle record notice hsound h).bind fun _ _ hsound _ => Safe.pure hsound trivial
  · refine (ask_unnoticed (.startHeartbeat _ _) hsound trivial rfl).bind ?_
    rintro _ _ hsound rfl
    refine (hsettle record _ hsound h).bind fun _ _ hsound _ => ?_
    exact (ask_unnoticed .stopHeartbeat hsound trivial rfl).bind fun _ _ hsound _ =>
      Safe.pure hsound trivial

/-! ## The whole worker -/

theorem processClaim_warns {job : ClaimedJob} :
    Free announcing (processClaim ext deployment job) := by
  refine free_ask (fun _ _ => trivial) fun time => free_ask (fun _ _ => trivial) fun outcome => ?_
  rcases outcome with error | _
  · exact free_pure
  · intro notice hsound
    refine Safe.request_still (fun _ _ hdrift => hdrift.elim) hsound trivial ?_
    rintro _ _ rfl hafter
    dsimp only [Program.bind]
    exact supervised_warns settleClaim_warns hafter rfl

theorem recover_warns : Free announcing (recover ext deployment) := by
  refine free_ask (fun _ _ => trivial) fun answer => ?_
  rcases answer with error | records
  · exact free_pure
  · dsimp only [Program.bind]
    split
    · exact free_pure
    · exact free_pure
    · exact free_pure
    · intro notice hsound
      refine Safe.request_still (fun _ _ hdrift => hdrift.elim) hsound trivial ?_
      rintro _ _ rfl hafter
      -- nothing of the job was touched yet, so anything may be announced
      refine Safe.request_still (fun _ _ hdrift => hdrift.elim) hafter nofun ?_
      rintro _ _ rfl hafter
      exact supervised_warns (P := fun _ => True) settleRecovered_warns hafter trivial

/-- Whatever the worker is answered, it touches packages only under a warning, which stands for as
long as the job has its progress. -/
theorem run_warns : Safe announcing (fun _ _ => True) (Worker.run ext deployment) {} := by
  have hidle : AdmitsIdling announcing := by
    intro request notice hidles _
    cases request with
    | runner run asked => exact hidles.elim
    | _ => trivial
  exact hidle.run recover_warns (fun _ => hidle.claimRound fun _ _ _ _ hsound =>
    processClaim_warns _ hsound) _ fun htouched => htouched

end Worker

end PackageHarness
