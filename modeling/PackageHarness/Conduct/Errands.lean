/-
# PackageHarness.Conduct.Errands — what the worker lets be done to the packages of a run.

A run's target is touched on two kinds of errands: by the execution that follows the creation of the
run's record, and by recoveries, each of which begins with an inventory of its own. `Licensed` is the
obligation of the worker's requests in view of its conversation: whatever is done for a run, and does
not merely settle what is known about it, belongs to such an errand and keeps to its rules.
-/
import PackageHarness.Conduct.Custody
import PackageHarness.Conduct.Idling
import PackageHarness.Conduct.Places

namespace PackageHarness

open Interaction Routine

/-- What may come between the creation of a record and the execution of its run. -/
def WorkerRequest.Prepares : WorkerRequest → Prop
  | newProgress | startHeartbeat _ _ => True
  | runner _ (.pm call) => call = .listPackages .claimCheck
  | _ => False

namespace RunnerRequest

/-- What is done for a run without an errand: its record is kept, and its outcome delivered. -/
def Settles : RunnerRequest → Prop
  | save _ _ | get _ | publish _ _ => True
  | enter point => point ≠ .runAlgorithm
  | pm (.listPackages purpose) => purpose = .claimCheck ∨ purpose = .restartCheck
  | _ => False

variable {asked : RunnerRequest}

theorem starts.not_settles (h : asked.starts) : ¬ asked.Settles := by
  cases asked with
  | enter point =>
      cases point with
      | runAlgorithm => exact fun hsettles => hsettles rfl
      | _ => exact h.elim
  | _ => exact h.elim

theorem changes.not_settles (h : asked.changes) : ¬ asked.Settles := by
  cases asked with
  | pm call =>
      cases call with
      | listPackages purpose => cases h
      | _ => exact id
  | _ => exact h.elim

end RunnerRequest

namespace Trace

/-- The conversation of code that runs on behalf of a run, as the worker has it. -/
def onBehalf (run : RunId) (t : Trace) : Chronicle :=
  t.map fun x => ⟨.runner run x.request, x.answer⟩

theorem onBehalf_append (run : RunId) (t u : Trace) :
    Trace.onBehalf run (t ++ u) = t.onBehalf run ++ u.onBehalf run := List.map_append

/-- A queued record that the conversation begins with is as it was created. -/
def Genuine (run : RunId) (t : Trace) : Prop :=
  ∀ since found, t = since ++ [⟨.get run, .ok (some found)⟩] → found.status = .queued → found.Fresh

/-- The conversation of a recovery that may change this target: it began with an inventory, and that
one does not list the target as a core package. -/
structure Recovers (config : WorkerConfig) (target : DnpName) (t : Trace) : Prop where
  began : ∃ since packages, t = since ++ [⟨.pm (.listPackages .restartCheck), .ok packages⟩]
  foreign : target.value ≠ config.harnessDnpName
  inspected : t.watch.Clears target

end Trace

namespace Chronicle

/-- The record has been created, and then only preparations have been made. -/
def Created (t : Chronicle) (record : RunRecord) : Prop :=
  ∃ since before, t = since ++ ⟨.create record, .ok ()⟩ :: before ∧ ∀ x ∈ since, x.request.Prepares

/-- The request belongs to the execution of a run that was created right before. -/
def Executing (deployment : Deployment) (run : RunId) (asked : RunnerRequest) (t : Chronicle) :
    Prop :=
  ∃ (u : Trace) (before : Chronicle) (record : RunRecord), t = u.onBehalf run ++ before ∧
    before.Created record ∧ record.id = run ∧
    record.request.package.dnpName.value ≠ deployment.worker.harnessDnpName ∧
    (u.Genuine run → u.Conducted deployment.runner True asked)

/-- The request belongs to a recovery of the run's target. -/
def Recovering (deployment : Deployment) (run : RunId) (asked : RunnerRequest) (t : Chronicle) :
    Prop :=
  ∃ (u : Trace) (before : Chronicle) (target : DnpName) (plan : TargetRecoveryPlan),
    t = u.onBehalf run ++ before ∧ u.Recovers deployment.worker target ∧
    Runner.Reconciles target plan asked

/-- The obligation of each request of the worker. -/
def Licensed (deployment : Deployment) (t : Chronicle) : WorkerRequest → Prop
  | .create record => ∃ job time before, record = .claimed job.request job.claimToken time ∧
      t = ⟨.now, time⟩ :: ⟨.claim, .ok (.claimed job)⟩ :: before
  | .runner run asked => ¬ asked.Settles →
      t.Executing deployment run asked ∨ t.Recovering deployment run asked
  | _ => True

end Chronicle

/-- Conversations in which everything is licensed. -/
abbrev licensed (deployment : Deployment) :
    Discipline WorkerRequest WorkerRequest.Answer Chronicle :=
  recorded (Chronicle.Licensed deployment)

/-! ## Executions -/

section Errands

variable {ext : Externals} {deployment : Deployment} {run : RunId} {t u : Trace}
  {before : Chronicle} {α : Type}

/-- Where the guard cannot fail any more, any program is safe. -/
theorem safe_of_suffix {E : Type} {R : E → Type} {guard : Transcript E R → E → Prop}
    {p : Program E R α} {t : Transcript E R} (h : ∀ later asked, t <:+ later → guard later asked) :
    Safe (recorded guard) (fun _ _ => True) p t := by
  intro p' t' hreaches
  exact ⟨trivial, fun asked _ _ => h t' asked hreaches.suffix, fun _ _ => trivial⟩

/-- A weaker guard. -/
theorem safe_of_guard {E : Type} {R : E → Type} {guard guard' : Transcript E R → E → Prop}
    {Q : α → Transcript E R → Prop} {p : Program E R α} {t : Transcript E R}
    (h : Safe (recorded guard) Q p t)
    (hguard : ∀ later asked, guard later asked → guard' later asked) :
    Safe (recorded guard') Q p t := by
  intro p' t' hreaches
  obtain ⟨_, hguarded, hends⟩ := h p' t' hreaches
  exact ⟨trivial, fun asked next heq => hguard t' asked (hguarded asked next heq), hends⟩

theorem not_genuine {found : RunRecord} (hqueued : found.status = .queued) (hstale : ¬ found.Fresh)
    (h : [⟨.get run, .ok (some found)⟩] <:+ t) : ¬ t.Genuine run := by
  obtain ⟨since, rfl⟩ := h
  exact fun hgenuine => hstale (hgenuine since found rfl hqueued)

/-- An execution of a record as it was created keeps to the rules. -/
theorem execute_conducted :
    Safe (recorded fun (t : Trace) asked =>
        t.Genuine run → t.Conducted deployment.runner True asked)
      (fun _ _ => True) (Runner.execute ext deployment.runner run) [] := by
  refine Safe.exchange (fun _ => trivial) fun answer => ?_
  rcases answer with error | (_ | found)
  · exact Safe.pure trivial trivial
  · exact Safe.pure trivial trivial
  · show Safe _ _ (if found.status ≠ .queued then Program.pure (.ok ()) else
      (Runner.drive ext deployment.runner { record := found }).bind fun c => Program.pure c.1) _
    split
    · exact Safe.pure trivial trivial
    · next hqueued =>
        by_cases hfresh : found.Fresh
        · have hdrive : Safe (conduct deployment.runner True) _
              (Runner.drive ext deployment.runner { record := found })
              [⟨.get run, .ok (some found)⟩] :=
            Conduct.drive_conducted hfresh _ _ trivial ⟨rfl, rfl⟩
          refine safe_of_guard (hdrive.bind fun c t' _ _ => Safe.pure trivial trivial) ?_
          exact fun _ _ hconducted _ => hconducted
        · refine safe_of_suffix fun later asked hsuffix hgenuine => ?_
          exact absurd hgenuine (not_genuine (Decidable.not_not.mp hqueued) hfresh hsuffix)

/-! ## Recoveries -/

/-- A reconciliation of a target that may be changed. -/
theorem reconcileTarget_inspected {target : DnpName} {plan : TargetRecoveryPlan}
    {initial : List PackageSummary} {timeout : Duration} {config : WorkerConfig}
    (h : u.Recovers config target) :
    Safe (recorded fun (t : Trace) asked =>
        t.Recovers config target ∧ Runner.Reconciles target plan asked)
      (fun _ _ => True) (Runner.reconcileTarget target plan initial timeout) u := by
  refine (Conduct.reconcileTarget_safe h ?_ ?_).mono fun _ _ _ _ => trivial
  · exact fun asked later hreconciles hrecovers => ⟨hrecovers, hreconciles⟩
  · intro asked answer later _ hrecovers hinventory
    obtain ⟨since, packages, rfl⟩ := hrecovers.began
    refine ⟨⟨⟨asked, answer⟩ :: since, packages, rfl⟩, hrecovers.foreign, ?_⟩
    obtain ⟨found, hfound, hnotCore⟩ := hrecovers.inspected
    exact ⟨found, hinventory.trans hfound, hnotCore⟩

/-! ## On behalf of a run -/

/-- What was proved about code of the runner, from its own conversation on. -/
theorem onBehalf_safe {guard : Trace → RunnerRequest → Prop}
    {license : Chronicle → WorkerRequest → Prop} {Q : α → Trace → Prop} {p : Runner α}
    (h : Safe (recorded guard) Q p u)
    (hlicense : ∀ t asked, guard t asked → license (t.onBehalf run ++ before) (.runner run asked)) :
    Safe (recorded license) (fun _ _ => True) (Worker.onBehalf run p)
      (u.onBehalf run ++ before) := by
  refine Safe.translate ?_
  let D : Discipline RunnerRequest RunnerRequest.Answer Chronicle :=
    (recorded license).comap (WorkerRequest.runner run) fun _ answer => answer
  let link : Chronicle → Trace → Prop := fun w t => w = t.onBehalf run ++ before
  have hsimulates : Simulates D (recorded guard) link := by
    refine ⟨?_, ?_, fun _ _ hdrift => False.elim hdrift⟩
    · rintro w t asked rfl hguard
      exact hlicense t asked hguard
    · rintro w t asked answer w' _ rfl _ ⟨_, rfl, rfl⟩
      exact ⟨_, rfl, rfl⟩
  exact (Safe.simulate hsimulates h trivial rfl).mono fun _ _ _ _ => trivial

theorem execute_licensed {record : RunRecord} (hcreated : before.Created record)
    (hforeign : record.request.package.dnpName.value ≠ deployment.worker.harnessDnpName) :
    Safe (licensed deployment) (fun _ _ => True)
      (Worker.onBehalf record.id (Runner.execute ext deployment.runner record.id)) before :=
  onBehalf_safe execute_conducted fun t _ hconducted _ =>
    Or.inl ⟨t, before, record, rfl, hcreated, rfl, hforeign, hconducted⟩

theorem reconcileTarget_licensed {target : DnpName} {plan : TargetRecoveryPlan}
    {initial : List PackageSummary} {timeout : Duration} (h : u.Recovers deployment.worker target) :
    Safe (licensed deployment) (fun _ _ => True)
      (Worker.onBehalf run (Runner.reconcileTarget target plan initial timeout))
      (u.onBehalf run ++ before) :=
  onBehalf_safe (reconcileTarget_inspected h) fun t _ hrecovers _ =>
    Or.inr ⟨t, before, target, plan, rfl, hrecovers⟩

end Errands

/-! ## Settlements -/

namespace Chronicle

variable {before : Chronicle} {record : RunRecord} {asked : WorkerRequest}

theorem Created.prepare (h : before.Created record) (hprepares : asked.Prepares)
    (answer : asked.Answer) : Created (⟨asked, answer⟩ :: before) record := by
  obtain ⟨since, earlier, rfl, hsince⟩ := h
  refine ⟨⟨asked, answer⟩ :: since, earlier, rfl, ?_⟩
  intro x hx
  rcases List.mem_cons.mp hx with rfl | hmem
  · exact hprepares
  · exact hsince x hmem

theorem created_cons : Created (⟨.create record, .ok ()⟩ :: before) record :=
  ⟨[], before, rfl, fun _ hx => absurd hx List.not_mem_nil⟩

/-- The creation, or something that prepares the execution. -/
theorem Created.cases {x : Exchange WorkerRequest WorkerRequest.Answer}
    (h : Created (x :: before) record) :
    x = ⟨.create record, .ok ()⟩ ∨ x.request.Prepares ∧ before.Created record := by
  obtain ⟨since, earlier, hsplit, hsince⟩ := h
  cases since with
  | nil => exact Or.inl (List.cons.inj hsplit).1
  | cons y since =>
      obtain ⟨rfl, rfl⟩ := List.cons.inj hsplit
      refine Or.inr ⟨hsince _ (List.mem_cons_self ..), since, earlier, rfl, fun z hz => ?_⟩
      exact hsince z (List.mem_cons_of_mem _ hz)

theorem not_created_nil : ¬ Created [] record := by
  rintro ⟨since, before, hnil, _⟩
  exact absurd (congrArg List.length hnil) (by simp)

end Chronicle

namespace Worker

variable {ext : Externals} {deployment : Deployment} {before : Chronicle} {α : Type}

/-- Bookkeeping settles, and is no errand. -/
theorem licensed_of_bookkeeping {request : WorkerRequest} (h : request.Bookkeeping) :
    before.Licensed deployment request := by
  cases request with
  | runner run asked =>
      refine fun herrand => absurd ?_ herrand
      cases asked with
      | pm call =>
          cases call with
          | listPackages purpose => exact Or.inl h
          | _ => exact h.elim
      | publish phase required => trivial
      | _ => exact h
  | create record => exact h.elim
  | _ => trivial

theorem licensed_sustains : Sustains (licensed deployment) fun _ => True :=
  fun hrequest _ _ => Safe.exchange (licensed_of_bookkeeping hrequest) fun _ =>
    Safe.pure trivial trivial

theorem listInventory_licensed {purpose : InventoryUse} {context : String}
    (hpurpose : purpose = .claimCheck ∨ purpose = .restartCheck)
    {P : RunRecord → Chronicle → Prop} {Q : List PackageSummary → RunRecord → Chronicle → Prop}
    (hlisted : ∀ packages record before, P record before → Q packages record
      (Trace.onBehalf record.id [⟨.pm (.listPackages purpose), .ok packages⟩] ++ before)) :
    Meets (licensed deployment) P (listInventory purpose context) Q fun _ _ _ => True := by
  refine Meets.bind_read fun t => ?_
  refine Meets.bind (Q := byOutcome Q fun _ _ _ => True) (Meets.run ?_) fun answer => ?_
  · rintro record before _ ⟨rfl, h⟩
    refine Safe.exchange (fun herrand => absurd hpurpose herrand) fun answer => ?_
    refine Safe.pure trivial ?_
    rcases answer with error | packages
    · trivial
    · exact hlisted packages t before h
  · rcases answer with error | packages
    · exact Meets.throw fun _ _ _ _ => trivial
    · exact Meets.pure fun _ _ _ h => h

/-- Another recovery: nothing is changed before an inventory has been read. -/
theorem recoverTargetIfRequired_licensed (cause : RecoveryCause) :
    Sustained (licensed deployment) (fun _ => True)
      (recoverTargetIfRequired deployment.worker cause) := by
  refine Meets.bind_read fun record => ?_
  split
  · exact licensed_sustains.persist.pre fun _ _ _ _ => trivial
  · split
    · exact Meets.throw fun _ _ _ _ => trivial
    · next hforeign =>
      let Listed : List PackageSummary → RunRecord → Chronicle → Prop := fun packages s w =>
        record = s ∧ ∃ before, w = Trace.onBehalf record.id
          [⟨.pm (.listPackages .restartCheck), .ok packages⟩] ++ before
      refine Meets.bind (Q := Listed) (listInventory_licensed (Or.inr rfl) ?_)
        fun packages => ?_
      · rintro packages s before ⟨rfl, _⟩
        exact ⟨rfl, before, rfl⟩
      · split
        · exact Meets.throw fun _ _ _ _ => trivial
        · next hcore =>
          let Published : RunRecord → Chronicle → Prop := fun s w =>
            record = s ∧ ∃ before, w = Trace.onBehalf record.id [⟨.publish .cleanup true, ()⟩,
              ⟨.pm (.listPackages .restartCheck), .ok packages⟩] ++ before
          refine Meets.bind (Q := fun _ => Published) (Meets.run ?_) fun _ => ?_
          · rintro s w _ ⟨rfl, before, rfl⟩
            refine Safe.exchange ?_ fun _ => Safe.pure trivial ⟨rfl, before, rfl⟩
            exact fun herrand => absurd trivial herrand
          refine Meets.bind (Q := fun _ _ _ => True) (Meets.run ?_) fun outcome => ?_
          · rintro s w _ ⟨rfl, before, rfl⟩
            refine reconcileTarget_licensed ⟨⟨[⟨.publish .cleanup true, ()⟩], packages, rfl⟩,
              hforeign, packages, rfl, ?_⟩
            intro package hpackage htarget
            -- the target was looked for among the core packages
            by_contra hisCore
            refine hcore (List.any_eq_true.mpr ⟨package, hpackage, ?_⟩)
            rw [Bool.and_eq_true]
            exact ⟨beq_iff_eq.mpr htarget, by simpa using hisCore⟩
          · exact Meets.bind Sustained.update fun _ => licensed_sustains.persist

theorem unsupportedJobReason_licensed :
    Meets (licensed deployment) (fun record w => w.Created record)
      (unsupportedJobReason deployment.worker)
      (fun reason record w => True ∧ (reason = none → w.Created record ∧
        record.request.package.dnpName.value ≠ deployment.worker.harnessDnpName))
      (fun _ _ _ => True) := by
  refine Meets.bind_read fun t => ?_
  split
  · refine Meets.pure fun _ _ _ _ => ⟨trivial, fun hnone => ?_⟩
    cases hnone
  · next hforeign =>
    refine Meets.bind (Q := fun _ s w => t = s ∧ w.Created s) (listInventory_licensed (Or.inl rfl) ?_)
      fun packages => ?_
    · rintro packages record before ⟨rfl, hcreated⟩
      have hprepares : WorkerRequest.Prepares (.runner t.id (.pm (.listPackages .claimCheck))) := rfl
      exact ⟨rfl, hcreated.prepare hprepares (.ok packages)⟩
    · split
      · refine Meets.pure fun _ _ _ _ => ⟨trivial, fun hnone => ?_⟩
        cases hnone
      · refine Meets.pure ?_
        rintro s w _ ⟨rfl, hcreated⟩
        exact ⟨trivial, fun _ => ⟨hcreated, hforeign⟩⟩

theorem settleClaim_licensed :
    Meets (licensed deployment) (fun record w => w.Created record) (settleClaim ext deployment)
      (fun _ _ _ => True) (fun _ _ _ => True) :=
  licensed_sustains.settleClaim recoverTargetIfRequired_licensed
    (fun _ _ _ h => execute_licensed h.1 h.2) unsupportedJobReason_licensed

theorem settleRecovered_licensed :
    Sustained (licensed deployment) (fun _ => True) (settleRecovered ext deployment.worker) :=
  licensed_sustains.settleRecovered recoverTargetIfRequired_licensed

theorem supervised_licensed {record : RunRecord} {settle : Settle Unit}
    {P : RunRecord → Chronicle → Prop}
    (hsettle : Meets (licensed deployment) P settle (fun _ _ _ => True) fun _ _ _ => True)
    (hstarts : ∀ token before, P record before →
      P record (⟨.startHeartbeat record.id token, ()⟩ :: before)) (h : P record before) :
    Safe (licensed deployment) (fun _ _ => True) (supervised record settle) before := by
  unfold supervised
  split
  · exact (hsettle record before trivial h).bind fun _ _ _ _ => Safe.pure trivial trivial
  · next token _ =>
      refine Safe.exchange trivial fun _ => ?_
      refine (hsettle record _ trivial (hstarts token before h)).bind fun _ _ _ _ => ?_
      exact Safe.exchange trivial fun _ => Safe.pure trivial trivial

theorem processClaim_licensed {job : ClaimedJob} :
    Safe (licensed deployment) (fun _ _ => True) (processClaim ext deployment job)
      (⟨.claim, .ok (.claimed job)⟩ :: before) := by
  refine Safe.exchange trivial fun time => ?_
  refine Safe.exchange ⟨job, time, before, rfl, rfl⟩ fun outcome => ?_
  rcases outcome with error | _
  · exact Safe.pure trivial trivial
  · refine Safe.exchange trivial fun _ => ?_
    have hprogress : WorkerRequest.newProgress.Prepares := trivial
    dsimp only [Program.bind]
    refine supervised_licensed settleClaim_licensed (fun token _ hcreated => ?_)
      (Chronicle.created_cons.prepare hprogress ())
    have hstarts : (WorkerRequest.startHeartbeat job.request.runId token).Prepares := trivial
    exact hcreated.prepare hstarts ()

/-! ## The loops -/

theorem licensed_admitsIdling : AdmitsIdling (licensed deployment) := by
  intro request w hidles _
  cases request with
  | runner run asked => exact hidles.elim
  | create record => exact hidles.elim
  | _ => trivial

theorem recover_licensed : Free (licensed deployment) (recover ext deployment) := by
  refine licensed_admitsIdling.ask trivial fun answer => ?_
  rcases answer with error | records
  · exact free_pure
  · dsimp only [Program.bind]
    split
    · exact free_pure
    · exact free_pure
    · exact free_pure
    · next record _ =>
        refine free_ask (fun _ _ => trivial) fun _ => free_ask (fun _ _ => ?_) fun _ before _ => ?_
        · exact fun herrand => absurd trivial herrand
        · exact supervised_licensed settleRecovered_licensed (fun _ _ _ => trivial) trivial

/-- The whole worker keeps to its errands, whatever it is answered. -/
theorem run_licensed :
    Safe (licensed deployment) (fun _ _ => True) (run ext deployment) [] := by
  refine licensed_admitsIdling.run recover_licensed (fun attempt => ?_) [] trivial
  refine licensed_admitsIdling.claimRound fun before job after hanswer _ => ?_
  cases hanswer
  exact processClaim_licensed

end Worker

end PackageHarness
