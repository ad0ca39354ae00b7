/-
# PackageHarness.Protocol.Algorithm — the test algorithm makes only permitted requests.

Stage by stage along `runAlgorithm`: the inventory is read once, the recovery plan that it calls for
is persisted, and no mutation is requested before the record that requires cleanup is durable. A
failure at any point leaves the run `Underway`.
-/
import PackageHarness.Protocol.Driving

namespace PackageHarness

open Interaction Routine

/-! ## The stages -/

/-- Nothing has been read yet. -/
def Untouched (run : RunId) (target : DnpName) (job : Job) (ledger : Ledger) : Prop :=
  job.target = target ∧ job.worker.cleanupRequired = false ∧ ledger.preflight run = none

/-- The preflight inventory is known. -/
def Inventoried (run : RunId) (target : DnpName) (packages : List PackageSummary) (job : Job)
    (ledger : Ledger) : Prop :=
  job.target = target ∧ job.worker.cleanupRequired = false ∧ ledger.preflight run = some packages

/-- The plan is in memory, and durable as soon as cleanup is required. -/
def Ready (run : RunId) (target : DnpName) (job : Job) (ledger : Ledger) : Prop :=
  job.target = target ∧ job.Planned ledger.preflight ∧
    (job.worker.cleanupRequired = true → DurablyRequired run ledger)

/-- The target may be mutated. -/
def Authorized (run : RunId) (target : DnpName) (job : Job) (ledger : Ledger) : Prop :=
  Ready run target job ledger ∧ job.worker.cleanupRequired = true

section Stages

variable {run : RunId} {target : DnpName}

theorem Untouched.stable : Stable (Untouched run target) := fun _ _ h => h

theorem Ready.stable : Stable (Ready run target) := by
  intro record ledger hpre
  obtain ⟨htarget, hplanned, hdurable⟩ := hpre
  refine ⟨htarget, hplanned, fun hrequired => ?_⟩
  obtain ⟨old, hold, hneeds⟩ := hdurable hrequired
  -- the saved record is the run's own, which requires cleanup, or another run's
  by_cases hid : run = record.id
  · subst hid
    exact ⟨record.persisted, RunStore.write_same .., hrequired⟩
  · exact ⟨old, (RunStore.write_of_ne _ _ hid).trans hold, hneeds⟩

theorem Authorized.stable : Stable (Authorized run target) :=
  fun record ledger h => ⟨Ready.stable record ledger h.1, h.2⟩

end Stages

namespace Runner

variable {ext : Externals} {avoided : Defect → Prop} {run : RunId} {X : Job → Ledger → Prop}

/-! ## Preflight -/

/-- The one inventory read of a run's preflight, and the note of what it answered. -/
theorem readInventory_meets {target : DnpName} {failure : PackageManagerError → Failure} :
    Advances ext avoided run (Untouched run target) (callOrFail (.listPackages .preflight) failure)
      fun packages => Inventoried run target packages := by
  refine Meets.bind (Q := byOutcome
    (fun packages => Stage ext avoided run (Inventoried run target packages))
    fun _ => Underway ext avoided run) (Meets.run ?_) ?_
  · intro s ledger hinv hpre
    obtain ⟨hauthorized, hdriving, htarget, huntouched, hnone⟩ := hpre
    obtain ⟨old, hold, _⟩ := hdriving.durable
    refine Runner.ask_safe (.pm (.listPackages .preflight)) hinv
      ⟨fun _ => ⟨hnone, Option.isSome_iff_exists.mpr ⟨old, hold⟩⟩, fun target h => by cases h⟩ ?_
    intro outcome after hanswers _ _
    rcases outcome with error | packages
    · cases hanswers
      exact ⟨hauthorized, hdriving, trivial⟩
    · cases hanswers
      refine ⟨hauthorized, { hdriving with sound := ?_ }, htarget, huntouched,
        Function.update_self ..⟩
      have hevolves : ledger.Evolves avoided (ledger.noteInventory run packages) := .note hnone
      exact hdriving.sound.note fun _ _ => hevolves.preflight
  · intro outcome
    rcases outcome with error | packages
    · exact Meets.throw fun _ _ _ h => h
    · exact Meets.pure fun _ _ _ h => h

theorem preflight_meets {config : RunnerConfig} {package : ResolvedPackage} {target : DnpName} :
    Advances ext avoided run (Untouched run target) (preflight config package)
      fun packages => Inventoried run target packages := by
  refine Meets.bind (phaseFailure_meets Untouched.stable _) ?_
  intro _
  refine Meets.bind (callOrFail_meets ⟨by simp, rfl⟩) ?_
  intro tools
  refine Meets.bind failWhen_meets ?_
  intro _
  refine Meets.bind failWhen_meets ?_
  intro _
  refine Meets.bind readInventory_meets ?_
  intro packages
  refine Meets.bind failWhen_meets ?_
  intro _
  exact Meets.pure fun _ _ _ h => h

/-- The inventory is persisted first, then the plan that it calls for. -/
theorem recordInventory_meets (package : ResolvedPackage) {packages : List PackageSummary} :
    Advances ext avoided run (Inventoried run package.dnpName packages)
      (recordInventory package packages) fun _ => Ready run package.dnpName := by
  let Recorded : Job → Ledger → Prop := fun job ledger =>
    Inventoried run package.dnpName packages job ledger ∧ job.initialPackages = packages
  refine Meets.bind (Q := fun _ => Stage ext avoided run Recorded) (Meets.update ?_) fun _ => ?_
  · intro s ledger _ hpre
    obtain ⟨hauthorized, hdriving, hinventoried⟩ := hpre
    exact ⟨hauthorized, hdriving.replan hinventoried.2.1 packages s.record.worker.targetRecovery,
      hinventoried, rfl⟩
  refine Meets.bind (saveFailure_meets (X := Recorded) (fun _ _ h => h) _) fun _ => ?_
  refine Meets.bind (Q := fun _ => Stage ext avoided run (Ready run package.dnpName))
    (Meets.update ?_) fun _ => saveFailure_meets Ready.stable _
  intro s ledger _ hpre
  obtain ⟨hauthorized, hdriving, ⟨htarget, huntouched, hnoted⟩, hinitial⟩ := hpre
  have hnamed := hdriving.named
  refine ⟨hauthorized, hdriving.replan huntouched s.record.evidence.initialPackages _, htarget,
    ⟨?_, ?_⟩, fun hrequired => ?_⟩
  · show ledger.preflight s.record.job.request.runId = some s.record.job.initialPackages
    rw [hnamed, hnoted, hinitial]
  · show recoveryPlanFor packages package.dnpName =
      recoveryPlanFor s.record.job.initialPackages s.record.job.target
    rw [hinitial, htarget]
  · have hrequired : s.record.job.worker.cleanupRequired = true := hrequired
    simp [huntouched] at hrequired

/-! ## Mutations -/

theorem authorizeCleanup_meets {target : DnpName} :
    Advances ext avoided run (Ready run target) authorizeCleanup
      fun _ => Authorized run target := by
  refine Meets.bind_read fun t => ?_
  split
  · next hauthorizedBefore =>
      refine Meets.pure ?_
      intro s ledger _ hpre
      obtain ⟨rfl, hauthorized, hdriving, hready⟩ := hpre
      exact ⟨hauthorized, hdriving, hready, hauthorized ▸ hauthorizedBefore⟩
  · -- the durable record is known to require cleanup only after the save
    let Requiring : Job → Ledger → Prop := fun job ledger =>
      (job.target = target ∧ job.Planned ledger.preflight) ∧ job.worker.cleanupRequired = true
    have hstable : Stable Requiring := fun _ _ h => h
    refine Meets.bind (Q := fun _ => Stage ext avoided run Requiring) (Meets.update ?_) fun _ => ?_
    · intro s ledger _ hpre
      obtain ⟨rfl, _, hdriving, htarget, hplanned, _⟩ := hpre
      exact ⟨rfl, hdriving.require hplanned, ⟨htarget, hplanned⟩, rfl⟩
    refine Meets.bind (Q := fun _ => Stage ext avoided run (Authorized run target)) ?_ fun _ => ?_
    · refine Meets.mapError ((saveRecord_meets hstable _).weaken (fun _ _ _ h => h) ?_
        fun _ _ _ _ h => h.underway)
      intro _ s ledger _ hpre
      obtain ⟨⟨hauthorized, hdriving, ⟨htarget, hplanned⟩, hrequired⟩, hdurable⟩ := hpre
      exact ⟨hauthorized, hdriving, ⟨htarget, hplanned, fun _ => ⟨_, hdurable, hrequired⟩⟩,
        hrequired⟩
    · exact Meets.bind_read_any fun _ => ask_meets trivial

/-- Mutations of the target that keep its volumes. -/
theorem mutate_meets {ε : Type} {F : ε → Execution → Ledger → Prop} {target : DnpName}
    {call : PmCall} (hmutates : call.mutates = some target)
    (hvolumes : call.deletesVolumes = false) :
    Meets (runProtocol ext avoided run) (Stage ext avoided run (Authorized run target))
      (.run (pm call)) (fun _ => Stage ext avoided run (Authorized run target)) F := by
  have hcall : call ≠ .listPackages .preflight := by
    intro heq
    subst heq
    cases hmutates
  refine Meets.run ?_
  intro s ledger hinv hpre
  obtain ⟨hauthorized, hdriving, ⟨htarget, hready⟩, hrequired⟩ := hpre
  refine Runner.ask_safe (.pm call) hinv ⟨fun h => absurd h hcall, ?_⟩ ?_
  · intro mutated hmutated
    cases hmutates.symm.trans hmutated
    rw [← htarget]
    exact hdriving.armed (hready.2 hrequired) hvolumes
  · intro answer after hanswers _ _
    have hsame : after = ledger := by
      cases call with
      | listPackages purpose => cases hmutates
      | _ => exact hanswers
    subst hsame
    exact ⟨hauthorized, hdriving, ⟨htarget, hready⟩, hrequired⟩

/-! ## Baseline -/

theorem installedOriginMatches_meets {dnpName : DnpName} {expected : Option String} :
    Advances ext avoided run X (installedOriginMatches dnpName expected) fun _ => X := by
  have hobserves : Observes (.pm (.getPackageDetails dnpName)) := ⟨by simp, rfl⟩
  refine Meets.bind (ask_meets hobserves) ?_
  intro answer
  rcases answer with error | details
  · exact Meets.pure fun _ _ _ h => h
  · exact Meets.pure fun _ _ _ h => h

theorem reuseInstalledBaseline_meets {package : ResolvedPackage}
    {installed : Option PackageSummary} {preview : PreviewSummary} :
    Advances ext avoided run X (reuseInstalledBaseline package installed preview) fun _ => X := by
  unfold reuseInstalledBaseline
  split
  · exact installedOriginMatches_meets
  · exact Meets.pure fun _ _ _ h => h

theorem previewBaseline_meets (hX : Stable X) {package : ResolvedPackage} :
    Advances ext avoided run X (previewBaseline package) fun _ => X :=
  Meets.bind (phaseFailure_meets hX _) fun _ => callOrFail_meets ⟨by simp, rfl⟩

theorem removeInstalled_meets {package : ResolvedPackage} :
    Advances ext avoided run (Authorized run package.dnpName) (removeInstalled package)
      fun _ => Authorized run package.dnpName := by
  refine Meets.bind (mutate_meets rfl rfl) ?_
  intro answer
  rcases answer with error | _
  · exact failWhen_meets
  · exact Meets.pure fun _ _ _ h => h

theorem installBypassingSignature_meets {package : ResolvedPackage}
    {rejection : PackageManagerError} :
    Advances ext avoided run (Authorized run package.dnpName)
      (installBypassingSignature package rejection) fun _ => Authorized run package.dnpName := by
  refine Meets.bind (mutate_meets rfl rfl) ?_
  intro answer
  rcases answer with error | _
  · exact Meets.throw fun _ _ _ h => h.underway
  · exact Meets.bind (modify_meets fun record => rfl) fun _ =>
      saveFailure_meets Authorized.stable _

theorem installBaseline_meets {package : ResolvedPackage} :
    Advances ext avoided run (Authorized run package.dnpName) (installBaseline package)
      fun _ => Authorized run package.dnpName := by
  refine Meets.bind (mutate_meets rfl rfl) ?_
  intro answer
  rcases answer with error | _
  · dsimp only
    split
    · exact installBypassingSignature_meets
    · exact Meets.throw fun _ _ _ h => h.underway
  · exact Meets.pure fun _ _ _ h => h

theorem prepareBaseline_meets {package : ResolvedPackage} {installed : Option PackageSummary}
    {reuse : Bool} :
    Advances ext avoided run (Ready run package.dnpName) (prepareBaseline package installed reuse)
      fun _ => Ready run package.dnpName := by
  unfold prepareBaseline
  split
  · exact Meets.pure fun _ _ _ h => h
  · have hinstall : Advances ext avoided run (Authorized run package.dnpName)
        (installBaseline package) fun _ => Ready run package.dnpName :=
      installBaseline_meets.weaken (fun _ _ _ h => h)
        (fun _ _ _ _ h => ⟨h.1, h.2.1, h.2.2.1⟩) fun _ _ _ _ h => h
    refine Meets.bind authorizeCleanup_meets ?_
    intro _
    dsimp only
    split
    · exact Meets.bind removeInstalled_meets fun _ => hinstall
    · exact hinstall

/-! ## Capture -/

theorem captureLogs_samples {config : RunnerConfig} {dnpName : DnpName} :
    Within Samples (fun _ => True) (captureLogs ext config dnpName) := by
  refine Within.perform ⟨rfl, by simp⟩ ?_
  intro answer
  rcases answer with error | logs
  · exact Within.pure trivial
  · exact Within.pure trivial

theorem capture_samples {config : RunnerConfig} {dnpName : DnpName} {startedAt : Timestamp}
    {preview : PreviewSummary} {installMs : Nat} {stabilization : StabilizationResult} :
    Within Samples (fun _ => True)
      (capture ext config dnpName startedAt preview installMs stabilization) := by
  refine Within.perform ⟨rfl, by simp⟩ ?_
  intro answer
  rcases answer with error | details
  · exact Within.pure trivial
  · refine Within.bind captureLogs_samples ?_
    intro logs _
    exact Within.perform trivial fun _ => Within.pure trivial

theorem capture_within {config : RunnerConfig} {dnpName : DnpName} {startedAt : Timestamp}
    {preview : PreviewSummary} {installMs : Nat} {stabilization : StabilizationResult} :
    Within Looks (fun _ => True)
      (capture ext config dnpName startedAt preview installMs stabilization) :=
  capture_samples.mono (fun _ => Samples.looks) fun _ h => h

theorem Side.store_job (side : Side) (h : side = baselineSide ∨ side = candidateSide)
    (evidence : CaptureEvidence) (record : RunRecord) :
    (setEvidence (side.store evidence) record).job = record.job := by
  rcases h with rfl | rfl <;> rfl

theorem stabilizeAndCapture_meets (hX : Stable X) {config : RunnerConfig}
    {package : ResolvedPackage} {side : Side} (hside : side = baselineSide ∨ side = candidateSide)
    {startedAt : Timestamp} {preview : PreviewSummary} {installMs : Nat} :
    Advances ext avoided run X
      (stabilizeAndCapture ext config package side startedAt preview installMs) fun _ => X := by
  refine Meets.bind (phaseFailure_meets hX _) ?_
  intro _
  refine Meets.bind (look_meets stabilize_within) ?_
  intro stabilization
  refine Meets.bind checkControl_meets ?_
  intro _
  refine Meets.bind (phaseFailure_meets hX _) ?_
  intro _
  refine Meets.bind (look_meets capture_within) ?_
  intro answer
  rcases answer with error | evidence
  · exact Meets.throw fun _ _ _ h => h.underway
  · refine Meets.bind (modify_meets (side.store_job hside evidence)) ?_
    intro _
    refine Meets.bind (saveFailure_meets hX _) ?_
    intro _
    exact ofExcept_meets

/-! ## The algorithm -/

theorem runBaseline_meets {config : RunnerConfig} {package : ResolvedPackage}
    {packages : List PackageSummary} :
    Advances ext avoided run (Ready run package.dnpName) (runBaseline ext config package packages)
      fun _ => Ready run package.dnpName := by
  refine Meets.bind (previewBaseline_meets Ready.stable) ?_
  intro preview
  refine Meets.bind reuseInstalledBaseline_meets ?_
  intro reuse
  refine Meets.bind (phaseFailure_meets Ready.stable _) ?_
  intro _
  refine Meets.bind (ask_meets trivial) ?_
  intro startedAt
  refine Meets.bind prepareBaseline_meets ?_
  intro _
  refine Meets.bind (ask_meets trivial) ?_
  intro finishedAt
  exact stabilizeAndCapture_meets Ready.stable (Or.inl rfl)

theorem runCandidate_meets {config : RunnerConfig} {package : ResolvedPackage} :
    Advances ext avoided run (Ready run package.dnpName) (runCandidate ext config package)
      fun _ => Authorized run package.dnpName := by
  refine Meets.bind (Q := fun _ => Stage ext avoided run (Ready run package.dnpName)) ?_
    fun preview => ?_
  · refine Meets.bind (phaseFailure_meets Ready.stable _) ?_
    intro _
    exact callOrFail_meets ⟨by simp, rfl⟩
  refine Meets.bind (phaseFailure_meets Ready.stable _) ?_
  intro _
  refine Meets.bind authorizeCleanup_meets ?_
  intro _
  refine Meets.bind (ask_meets trivial) ?_
  intro startedAt
  refine Meets.bind (Q := fun _ => Stage ext avoided run (Authorized run package.dnpName)) ?_
    fun _ => ?_
  · refine Meets.bind (mutate_meets rfl rfl) ?_
    intro answer
    rcases answer with error | _
    · exact Meets.throw fun _ _ _ h => h.underway
    · exact Meets.pure fun _ _ _ h => h
  refine Meets.bind (ask_meets trivial) ?_
  intro finishedAt
  exact stabilizeAndCapture_meets Authorized.stable (Or.inr rfl)

theorem presentEvidence_meets {side : String} {capture : Option CaptureEvidence} :
    Advances ext avoided run X (presentEvidence side capture) fun _ => X := by
  unfold presentEvidence
  split
  · exact Meets.pure fun _ _ _ h => h
  · exact Meets.throw fun _ _ _ h => h.underway

theorem analyzeEvidence_meets (hX : Stable X) :
    Advances ext avoided run X (analyzeEvidence ext) fun _ => X := by
  refine Meets.bind (phaseFailure_meets hX _) ?_
  intro _
  refine Meets.bind_read_any fun s => ?_
  refine Meets.bind presentEvidence_meets ?_
  intro baseline
  refine Meets.bind presentEvidence_meets ?_
  intro candidate
  refine Meets.bind (modify_meets fun record => rfl) fun _ => ?_
  refine Meets.bind (ask_meets trivial) ?_
  intro answer
  refine Meets.bind (modify_meets fun record => rfl) fun _ => ?_
  exact saveFailure_meets hX _

/-- The algorithm, from a run of which nothing has been read, to its end or an early failure. -/
theorem runAlgorithm_meets {config : RunnerConfig} {target : DnpName} :
    Meets (runProtocol ext avoided run) (Stage ext avoided run (Untouched run target))
      (runAlgorithm ext config) (fun _ => Underway ext avoided run)
      (fun _ => Underway ext avoided run) := by
  have hmark : Advances ext avoided run (Untouched run target) (.run (enter .runAlgorithm))
      fun _ => Untouched run target := by
    refine Meets.run ?_
    intro s ledger hinv h
    refine Runner.ask_safe (.enter .runAlgorithm) hinv trivial ?_
    intro _ after hanswers _ _
    cases hanswers
    exact h
  refine Meets.bind hmark ?_
  intro _
  refine Meets.bind_read fun t => ?_
  by_cases htarget : t.record.job.target = target
  · -- the stages speak of the target of the record that was read
    subst htarget
    refine Meets.bind (preflight_meets.pre (fun _ _ _ h => h.2)) fun packages => ?_
    refine Meets.bind (recordInventory_meets t.record.request.resolve) ?_
    intro _
    refine Meets.bind runBaseline_meets ?_
    intro _
    refine Meets.bind runCandidate_meets ?_
    intro _
    exact (analyzeEvidence_meets Authorized.stable).weaken (fun _ _ _ h => h)
      (fun _ _ _ _ h => h.underway) fun _ _ _ _ h => h
  · intro s ledger _ hpre
    obtain ⟨rfl, _, _, hsame, _⟩ := hpre
    exact absurd hsame htarget

end Runner

end PackageHarness
