/-
# PackageHarness.Conduct.Algorithm — the algorithm, stage by stage, over every trace.

The preflight clears the target, the two sides are installed and captured, and the analysis ends
the algorithm. Each mutating call is made for the cleared target, the candidate is installed once,
and an early end is explained by the last answer.
-/
import PackageHarness.Conduct.Stages
import PackageHarness.Protocol.Algorithm

namespace PackageHarness

open Interaction Routine

namespace Conduct

open Runner

/-! ## The stages -/

section Stages

variable (config : RunnerConfig) (target : DnpName)

/-- The algorithm has started and nothing has been captured. -/
structure Opened (s : Execution) (t : Trace) : Prop where
  unauthorized : s.cleanupAuthorized = false
  baseline : s.record.evidence.baseline = none
  candidate : s.record.evidence.candidate = none
  uncompared : s.record.evidence.comparison = none
  started : t.Mentions RunnerRequest.starts
  notUpdated : ¬ t.Mentions RunnerRequest.updates
  unmutated : t.watch.mutated = false

/-- The preflight inventory has been read. -/
structure Listed (packages : List PackageSummary) (s : Execution) (t : Trace) : Prop where
  unauthorized : s.cleanupAuthorized = false
  candidate : s.record.evidence.candidate = none
  uncompared : s.record.evidence.comparison = none
  started : t.Mentions RunnerRequest.starts
  notUpdated : ¬ t.Mentions RunnerRequest.updates
  inventory : t.watch.inventory = some packages

/-- The inventory clears the target, and the candidate has not been installed. -/
structure Inspected (s : Execution) (t : Trace) : Prop where
  cleared : t.Cleared config target
  candidate : s.record.evidence.candidate = none
  uncompared : s.record.evidence.comparison = none
  notUpdated : ¬ t.Mentions RunnerRequest.updates

/-- The baseline has been captured as well. -/
structure Based (s : Execution) (t : Trace) : Prop extends Inspected config target s t where
  baseline : s.record.evidence.baseline.isSome

/-- The candidate has been installed. -/
structure Updated (ref : PackageRef) (s : Execution) (t : Trace) : Prop where
  authorized : s.cleanupAuthorized = true
  baseline : s.record.evidence.baseline.isSome
  uncompared : s.record.evidence.comparison = none
  updated : t.Called (.updatePackage target ref) (.ok ())

/-- Both sides have been captured. -/
structure Captured (ref : PackageRef) (s : Execution) (t : Trace) : Prop
    extends Updated target ref s t where
  candidate : s.record.evidence.candidate.isSome

variable {config target} {ref : PackageRef}

theorem not_updated_more {t : Trace} {asked : RunnerRequest} {answer : asked.Answer}
    (h : ¬ t.Mentions RunnerRequest.updates) (hother : ¬ asked.updates) :
    ¬ Transcript.Mentions (⟨asked, answer⟩ :: t) RunnerRequest.updates := by
  intro hmentions
  rcases Transcript.mentions_cons.mp hmentions with hasked | hearlier
  · exact hother hasked
  · exact h hearlier

theorem Opened.lasting : Lasting Opened where
  hears := by
    intro s t asked answer hquiet h
    have hwatch : Trace.watch (⟨asked, answer⟩ :: t) = t.watch :=
      Watch.observe_of_ignores hquiet.ignores
    exact { h with
      started := Transcript.mentions_cons.mpr (Or.inr h.started)
      notUpdated := not_updated_more h.notUpdated hquiet.not_updates
      unmutated := hwatch ▸ h.unmutated }
  phase := fun _ _ h => { h with unauthorized := h.unauthorized }

theorem Inspected.lasting : Lasting (Inspected config target) where
  hears := fun hquiet h => { h with
    cleared := h.cleared.ignore hquiet.ignores
    notUpdated := not_updated_more h.notUpdated hquiet.not_updates }
  phase := fun _ _ h => { h with candidate := h.candidate }

theorem Based.lasting : Lasting (Based config target) where
  hears := fun hquiet h => { h with toInspected := Inspected.lasting.hears hquiet h.toInspected }
  phase := fun next time h =>
    { h with toInspected := Inspected.lasting.phase next time h.toInspected }

theorem Updated.lasting : Lasting (Updated target ref) where
  hears := fun _ h => { h with updated := List.mem_cons_of_mem _ h.updated }
  phase := fun _ _ h => { h with baseline := h.baseline }

theorem Captured.lasting : Lasting (Captured target ref) where
  hears := fun hquiet h => { h with toUpdated := Updated.lasting.hears hquiet h.toUpdated }
  phase := fun next time h => { h with toUpdated := Updated.lasting.phase next time h.toUpdated }

/-- A stage together with an answer of the package manager that is on record. -/
theorem Lasting.called {X : Execution → Trace → Prop} (hX : Lasting X) (call : PmCall)
    (answer : Except PackageManagerError call.Reply) :
    Lasting fun s (t : Trace) => X s t ∧ t.Called call answer where
  hears := fun hquiet h => ⟨hX.hears hquiet h.1, List.mem_cons_of_mem _ h.2⟩
  phase := fun next time h => ⟨hX.phase next time h.1, h.2⟩

end Stages

variable {ext : Externals} {config : RunnerConfig} {request : RunRequest} {comparing : Prop}
  {X : Execution → Trace → Prop}

/-! ## Preflight -/

theorem notCore_of_any {packages : List PackageSummary} {dnpName : DnpName}
    (h : (packages.any fun installed => installed.dnpName == dnpName && installed.isCore) = false) :
    NotCore packages dnpName := by
  intro package hmem hname
  have hpackage := List.any_eq_false.mp h package hmem
  simpa [hname] using hpackage

/-- Reading the inventory that the algorithm goes by. -/
theorem readInventory_meets {failure : PackageManagerError → Failure}
    (hverdict : ∀ error, (failure error).verdict = .infrastructureError) :
    Meets (conduct config comparing) (Stage config request True Opened)
      (callOrFail (.listPackages .preflight) failure)
      (fun packages s t => Stage config request True (Listed packages) s t ∧ Blameless t)
      (Early config request) := by
  -- nothing is authorized yet, so the sofar part does not depend on the inventory
  have read : ∀ {s : Execution} {t : Trace} {answer : Except PackageManagerError _},
      Stage config request True Opened s t → Sofar config request True s
        (⟨.pm (.listPackages .preflight), answer⟩ :: t) := by
    intro s t answer h
    obtain ⟨hsofar, hopened⟩ := h
    exact {
      requested := hsofar.requested
      cleared := fun hauthorized => by simp [hopened.unauthorized] at hauthorized
      baseline := fun capture hcapture => by simp [hopened.baseline] at hcapture
      candidate := fun capture hcapture => by simp [hopened.candidate] at hcapture
      sides := hsofar.sides
      fits := hsofar.fits
      uncompared := hsofar.uncompared
      bypassed := fun hmentions =>
        hsofar.bypassed ((Transcript.mentions_cons.mp hmentions).resolve_left id)
      unbypassed := fun hmentions => hsofar.unbypassed fun hearlier =>
        hmentions (Transcript.mentions_cons.mpr (Or.inr hearlier))
      uncleaned := unsaved_more hsofar.uncleaned (by simp)
      unanalyzed := unsaved_more hsofar.unanalyzed (by simp)
      unrefused := hsofar.unrefused.more (Trace.unrefused_of_not_updates id) }
  refine Meets.bind (Q := byOutcome
    (fun packages s t => Stage config request True (Listed packages) s t ∧ Blameless t)
    fun error s t => Stage config request True (fun _ _ => True) s t ∧ Blameless t)
    (Meets.ask ?_ ?_) ?_
  · exact fun s t _ => ⟨fun target hmutates => (nomatch hmutates), False.elim⟩
  · intro answer s t hpre
    have hopened := hpre.2
    rcases answer with error | packages
    · exact ⟨⟨read hpre, trivial⟩, _, _, t, rfl, rfl⟩
    · have hwatch : Trace.watch (⟨.pm (.listPackages .preflight), .ok packages⟩ :: t) =
          { Trace.watch t with inventory := some packages } := by
        show Watch.note (Trace.watch t) packages = _
        simp [Watch.note, hopened.unmutated]
      exact ⟨⟨read hpre, { hopened with
        started := Transcript.mentions_cons.mpr (Or.inr hopened.started)
        notUpdated := not_updated_more hopened.notUpdated id
        inventory := by rw [hwatch] }⟩, _, _, t, rfl, rfl⟩
  · intro answer
    rcases answer with error | packages
    · exact Meets.throw fun _ _ _ h => h.1.early h.2 (hverdict error)
    · exact Meets.pure fun _ _ _ h => h

theorem preflight_meets {package : ResolvedPackage} (hpackage : package = request.resolve) :
    Reports config request comparing Opened (preflight config package)
      fun _ => Inspected config request.package.dnpName := by
  refine Meets.bind (enterPhase_meets Opened.lasting _) ?_
  intro _
  refine Meets.bind (callOrFail_meets Opened.lasting ⟨rfl, by simp⟩ (fun error => rfl)
    fun error => rfl) ?_
  intro tools
  refine Meets.bind ((failWhen_meets rfl).pre fun _ _ _ h => h.1) ?_
  intro _
  refine Meets.bind ((failWhen_meets rfl).pre fun _ _ _ h => h.1) ?_
  intro _
  by_cases hforeign : package.dnpName.value == config.harnessDnpName
  · -- refused before the inventory is read
    exact fun s t _ hpre => absurd hforeign (by simp [hpre.2])
  refine Meets.bind ((readInventory_meets fun error => rfl).pre fun _ _ _ h => h.1.1) ?_
  intro packages
  refine Meets.bind (failWhen_meets rfl) ?_
  intro _
  refine Meets.pure ?_
  intro s t _ hpre
  obtain ⟨⟨⟨hsofar, hlisted⟩, _⟩, hcore⟩ := hpre
  subst hpackage
  exact ⟨hsofar, {
    cleared :=
      { foreign := by simpa [RunRequest.resolve] using hforeign
        started := hlisted.started
        inspected := ⟨packages, hlisted.inventory, notCore_of_any hcore⟩ }
    candidate := hlisted.candidate
    uncompared := hlisted.uncompared
    notUpdated := hlisted.notUpdated }⟩

theorem recordInventory_meets {package : ResolvedPackage} {packages : List PackageSummary} :
    Reports config request comparing (Inspected config request.package.dnpName)
      (recordInventory package packages)
      fun _ => Inspected config request.package.dnpName := by
  refine Meets.bind (modify_meets (fun record => ⟨rfl, rfl, rfl, rfl, rfl⟩) fun _ _ h =>
    { h with candidate := h.candidate }) fun _ => ?_
  refine Meets.bind (keepSaved_meets Inspected.lasting (by simp)) fun _ => ?_
  refine Meets.bind (modify_meets (fun record => ⟨rfl, rfl, rfl, rfl, rfl⟩) fun _ _ h =>
    { h with candidate := h.candidate }) fun _ => ?_
  exact keepSaved_meets Inspected.lasting (by simp)

/-! ## Mutations -/

/-- A stage that mutations of the target before the candidate's installation keep. -/
structure Enduring (config : RunnerConfig) (target : DnpName) (X : Execution → Trace → Prop) :
    Prop extends Lasting X where
  inspected : ∀ {s t}, X s t → Inspected config target s t
  authorize : ∀ {s t}, X s t →
    X { Execution.modify requireCleanup s with cleanupAuthorized := true } t
  mutate : ∀ {s t call target} {answer : Except PackageManagerError call.Reply},
    call.mutates = some target → ¬ RunnerRequest.updates (.pm call) → X s t →
    X s (⟨.pm call, answer⟩ :: t)
  noted : ∀ {s t} error, X s t → X (Execution.modify (pushError error) s) t

variable {target : DnpName}

theorem Enduring.inspectedStage (config : RunnerConfig) (target : DnpName) :
    Enduring config target (Inspected config target) where
  toLasting := Inspected.lasting
  inspected := id
  authorize := fun h => { h with candidate := h.candidate }
  mutate := fun hmutates hupdates h =>
    { h with
      cleared := h.cleared.mutate hmutates
      notUpdated := not_updated_more h.notUpdated hupdates }
  noted := fun _ h => { h with candidate := h.candidate }

theorem Enduring.called {X : Execution → Trace → Prop} (hX : Enduring config target X)
    (call : PmCall) (answer : Except PackageManagerError call.Reply) :
    Enduring config target fun s (t : Trace) => X s t ∧ t.Called call answer where
  toLasting := hX.toLasting.called call answer
  inspected := fun h => hX.inspected h.1
  authorize := fun h => ⟨hX.authorize h.1, h.2⟩
  mutate := fun hmutates hupdates h =>
    ⟨hX.mutate hmutates hupdates h.1, List.mem_cons_of_mem _ h.2⟩
  noted := fun error h => ⟨hX.noted error h.1, h.2⟩

/-- A stage in which cleanup has been authorized. -/
def Authorized (X : Execution → Trace → Prop) (s : Execution) (t : Trace) : Prop :=
  X s t ∧ s.cleanupAuthorized = true

theorem Authorized.lasting (hX : Lasting X) : Lasting (Authorized X) where
  hears := fun hquiet h => ⟨hX.hears hquiet h.1, h.2⟩
  phase := fun next time h => ⟨hX.phase next time h.1, h.2⟩

theorem authorizeCleanup_meets (hX : Enduring config request.package.dnpName X) :
    Reports config request comparing X authorizeCleanup fun _ => Authorized X := by
  refine Meets.bind_read fun u => ?_
  split
  · next hbefore =>
      refine Meets.pure ?_
      intro s t _ hpre
      obtain ⟨rfl, hsofar, hX'⟩ := hpre
      exact ⟨hsofar, hX', hbefore⟩
  · refine Meets.bind (Q := fun _ => Stage config request True (Authorized X)) (Meets.update ?_)
      fun _ => ?_
    · intro s t _ hpre
      obtain ⟨_, h, hX'⟩ := hpre
      exact ⟨{ h with requested := h.requested, cleared := fun _ => (hX.inspected hX').cleared },
        hX.authorize hX', rfl⟩
    refine Meets.bind (keepSaved_meets (Authorized.lasting hX.toLasting) (by simp)) fun _ => ?_
    refine Meets.bind_read_any fun u => ?_
    exact (hear_meets (Authorized.lasting hX.toLasting).stage (.publish _ _) trivial).weaken
      (fun _ _ _ h => h) (fun _ _ _ _ h => h.1) fun _ _ _ _ h => h

/-- One mutating call, with what is known before and after it. -/
theorem mutate_meets (hX : Enduring config request.package.dnpName X) {call : PmCall}
    (hmutates : call.mutates = some request.package.dnpName)
    (hupdates : ¬ RunnerRequest.updates (.pm call))
    {F : Failure → Execution → Trace → Prop} :
    Meets (conduct config comparing) (Stage config request True (Authorized X)) (.run (pm call))
      (fun answer s (t : Trace) => ∃ earlier, t = ⟨.pm call, answer⟩ :: earlier ∧
        Stage config request True (Authorized X) s earlier) F := by
  refine Meets.ask ?_ fun answer s t h => ⟨t, rfl, h⟩
  intro s t hpre
  obtain ⟨_, hX', _⟩ := hpre
  refine ⟨fun mutated hmutated => ?_, fun h => absurd h hupdates⟩
  cases hmutates.symm.trans hmutated
  exact (hX.inspected hX').cleared

/-- After a mutating call other than the bypassing one, the stage is what it was. -/
theorem Stage.mutate (hX : Enduring config request.package.dnpName X) {s : Execution} {t : Trace}
    {call : PmCall} {answer : Except PackageManagerError call.Reply} {mutated : DnpName}
    (h : Stage config request True (Authorized X) s t) (hmutates : call.mutates = some mutated)
    (hupdates : ¬ RunnerRequest.updates (.pm call))
    (hbypasses : ¬ RunnerRequest.bypasses (.pm call)) :
    Stage config request True (Authorized X) s (⟨.pm call, answer⟩ :: t) :=
  ⟨h.1.more (fun _ hcleared => hcleared.mutate hmutates) hbypasses
      (Trace.unrefused_of_not_updates hupdates) (by simp) (by simp),
    hX.mutate hmutates hupdates h.2.1, h.2.2⟩

/-- Leaving on the error of a mutating call. -/
theorem Stage.reject {s : Execution} {t : Trace} {call : PmCall} {error : PackageManagerError}
    {mutated : DnpName} {failure : Failure} (h : Stage config request True X s t)
    (hmutates : call.mutates = some mutated) (hverdict : failure.verdict = blame call error)
    (hfailed : failure.verdict = .failed → s.record.evidence.candidate = none) :
    Early config request failure s (⟨.pm call, .error error⟩ :: t) :=
  h.1.leave (fun _ hcleared => hcleared.mutate hmutates) (by simp) hverdict hfailed

/-! ## Baseline -/

theorem removeInstalled_meets (hX : Enduring config request.package.dnpName X)
    {package : ResolvedPackage} (hpackage : package = request.resolve) :
    Reports config request comparing (Authorized X) (removeInstalled package)
      fun _ => Authorized X := by
  subst hpackage
  refine Meets.bind (mutate_meets hX rfl id) ?_
  intro answer
  rcases answer with error | _
  · refine (failWhen_meets rfl).weaken ?_ (fun _ _ _ _ h => h.1.1) fun _ _ _ _ h => h
    intro s t _ hpre
    obtain ⟨earlier, rfl, h⟩ := hpre
    exact ⟨h.mutate hX rfl id id, _, _, earlier, rfl, rfl⟩
  · refine Meets.pure ?_
    intro s t _ hpre
    obtain ⟨earlier, rfl, h⟩ := hpre
    exact h.mutate hX rfl id id

theorem baselineInstallFailure_verdict (dnpName : DnpName) (version : Option PackageRef)
    (error : PackageManagerError) :
    (baselineInstallFailure error).verdict = blame (.installPackage dnpName version) error ∧
    (baselineInstallFailure error).verdict =
      blame (.installPackageBypassingSignature dnpName version) error ∧
    (baselineInstallFailure error).verdict ≠ .failed := by
  cases error with
  | requiredSetup => exact ⟨rfl, rfl, by simp [baselineInstallFailure]⟩
  | _ => exact ⟨rfl, rfl, by simp [baselineInstallFailure]⟩

/-- The bypassing installation is noted among the errors. -/
theorem installBypassingSignature_meets (hX : Enduring config request.package.dnpName X)
    {package : ResolvedPackage} (hpackage : package = request.resolve)
    {rejection : PackageManagerError} :
    Reports config request comparing (Authorized X) (installBypassingSignature package rejection)
      fun _ => Authorized X := by
  subst hpackage
  refine Meets.bind (mutate_meets hX rfl id) ?_
  intro answer
  rcases answer with error | _
  · refine Meets.throw ?_
    intro s t _ hpre
    obtain ⟨earlier, rfl, h⟩ := hpre
    obtain ⟨_, hverdict, hfailed⟩ := baselineInstallFailure_verdict _ _ error
    exact Stage.reject h rfl hverdict fun heq => absurd heq hfailed
  · refine Meets.bind (Meets.update ?_) fun _ =>
      keepSaved_meets (Authorized.lasting hX.toLasting) (by simp)
    intro s t _ hpre
    obtain ⟨earlier, rfl, h, hX', hauthorized⟩ := hpre
    have hgrounds : Grounds config request s (⟨.pm (.installPackageBypassingSignature
        request.package.dnpName request.package.baselineRef), .ok ()⟩ :: earlier) :=
      h.toGrounds.more (fun _ hcleared => hcleared.mutate rfl) (by simp)
    refine ⟨{ hgrounds with
      requested := hgrounds.requested
      fits := h.fits
      uncompared := h.uncompared
      bypassed := fun _ => ?_
      unbypassed := fun hnone => (hnone ⟨_, List.mem_cons_self .., trivial⟩).elim
      unanalyzed := unsaved_more h.unanalyzed (by simp)
      unrefused := h.unrefused.more (Trace.unrefused_of_not_updates id) },
      hX.noted _ (hX.mutate rfl id hX'), hauthorized⟩
    simp [NotesBypass, Execution.modify, pushError]

theorem installBaseline_meets (hX : Enduring config request.package.dnpName X)
    {package : ResolvedPackage} (hpackage : package = request.resolve) :
    Reports config request comparing (Authorized X) (installBaseline package)
      fun _ => Authorized X := by
  have hmutates : (PmCall.installPackage package.dnpName package.baselineRef).mutates =
      some request.package.dnpName := by rw [hpackage]; rfl
  refine Meets.bind (mutate_meets hX hmutates id) ?_
  intro answer
  rcases answer with error | _
  · dsimp only
    split
    · refine (installBypassingSignature_meets hX hpackage).pre ?_
      intro s t _ hpre
      obtain ⟨earlier, rfl, h⟩ := hpre
      exact h.mutate hX hmutates id id
    · refine Meets.throw ?_
      intro s t _ hpre
      obtain ⟨earlier, rfl, h⟩ := hpre
      obtain ⟨hverdict, _, hfailed⟩ := baselineInstallFailure_verdict _ _ error
      exact Stage.reject h hmutates hverdict fun heq => absurd heq hfailed
  · refine Meets.pure ?_
    intro s t _ hpre
    obtain ⟨earlier, rfl, h⟩ := hpre
    exact h.mutate hX hmutates id id

theorem prepareBaseline_meets (hX : Enduring config request.package.dnpName X)
    {package : ResolvedPackage} (hpackage : package = request.resolve)
    {installed : Option PackageSummary} {reuse : Bool} :
    Reports config request comparing X (prepareBaseline package installed reuse) fun _ => X := by
  unfold prepareBaseline
  split
  · exact Meets.pure fun _ _ _ h => h
  · have hinstall : Reports config request comparing (Authorized X) (installBaseline package)
        fun _ => X :=
      (installBaseline_meets hX hpackage).weaken (fun _ _ _ h => h)
        (fun _ _ _ _ h => ⟨h.1, h.2.1⟩) fun _ _ _ _ h => h
    refine Meets.bind (authorizeCleanup_meets hX) ?_
    intro _
    dsimp only
    split
    · exact Meets.bind (removeInstalled_meets hX hpackage) fun _ => hinstall
    · exact hinstall

theorem reuseInstalledBaseline_meets (hX : Lasting X) {package : ResolvedPackage}
    {installed : Option PackageSummary} {preview : PreviewSummary} :
    Reports config request comparing X (reuseInstalledBaseline package installed preview)
      fun _ => X := by
  unfold reuseInstalledBaseline
  split
  · refine Meets.bind (hear_meets hX.stage (.pm (.getPackageDetails _)) ⟨rfl, by simp⟩) ?_
    intro answer
    rcases answer with error | details
    · exact Meets.pure fun _ _ _ h => h.1
    · exact Meets.pure fun _ _ _ h => h.1
  · exact Meets.pure fun _ _ _ h => h

/-! ## Capture -/

/-- A capture that is stored for a side, before it has been checked. -/
structure Stores (config : RunnerConfig) (request : RunRequest) (side : Side)
    (version : Option PackageRef) (X Y : Execution → Trace → Prop) : Prop where
  sofar : ∀ {capture s t}, X s t → Sofar config request True s t →
    Trace.Taken t request.package.dnpName version capture →
    Sofar config request (Fits capture)
      (Execution.modify (setEvidence (side.store capture)) s) t
  next : ∀ {capture s t}, X s t → Y (Execution.modify (setEvidence (side.store capture)) s) t

theorem baselineStores : Stores config request baselineSide request.package.baselineRef
    (Inspected config request.package.dnpName) (Based config request.package.dnpName) where
  sofar := by
    intro capture s t hinspected h htaken
    exact { h with
      requested := h.requested
      baseline := fun found hfound => Option.some.inj hfound ▸ htaken
      sides := fun hcompared => ⟨rfl, (h.sides hcompared).2⟩
      uncompared := fun _ => hinspected.uncompared
      fits := fun hfits =>
        ⟨fun found hfound => Option.some.inj hfound ▸ hfits, (h.fits trivial).2⟩ }
  next := fun h => { h with baseline := rfl }

theorem candidateStores {ref : PackageRef} :
    Stores config request candidateSide (some request.package.candidateRef)
      (Updated request.package.dnpName ref) (Captured request.package.dnpName ref) where
  sofar := by
    intro capture s t hupdated h htaken
    exact { h with
      requested := h.requested
      candidate := fun found hfound => Option.some.inj hfound ▸ htaken
      sides := fun hcompared => ⟨(h.sides hcompared).1, rfl⟩
      uncompared := fun _ => hupdated.uncompared
      fits := fun hfits =>
        ⟨(h.fits trivial).1, fun found hfound => Option.some.inj hfound ▸ hfits⟩ }
  next := fun h => { h with candidate := rfl }

/-- A capture holds the preview that it is given and the details that are read for it. -/
theorem capture_meets (hX : Lasting X) {dnpName : DnpName} {startedAt : Timestamp}
    {preview : PreviewSummary} {installMs : Nat} {stabilization : StabilizationResult}
    {F : Failure → Execution → Trace → Prop} :
    Meets (conduct config comparing) (Stage config request True X)
      (.run (capture ext config dnpName startedAt preview installMs stabilization))
      (byOutcome
        (fun evidence s (t : Trace) => Stage config request True X s t ∧
          evidence.preview = some preview ∧ ∃ details, evidence.details = some details ∧
            t.Called (.getPackageDetails dnpName) (.ok details))
        fun _ s t => Stage config request True X s t ∧ Blameless t) F := by
  have hquiet : Quiet (.pm (.getPackageDetails dnpName)) := ⟨rfl, by simp⟩
  refine Meets.run ?_
  intro s t _ h
  refine Safe.exchange hquiet.conducted ?_
  intro answer
  rcases answer with error | details
  · exact Safe.pure trivial ⟨hX.stage hquiet h, _, _, t, rfl, rfl⟩
  · have hrest : ∀ next, capture ext config dnpName startedAt preview installMs stabilization =
        .request (.pm (.getPackageDetails dnpName)) next →
        Within Looks (fun r : Except PackageManagerError CaptureEvidence => ∃ evidence,
          r = .ok evidence ∧ evidence.preview = some preview ∧ evidence.details = some details)
          (next (.ok details)) := by
      intro next hnext
      cases hnext
      dsimp only [Program.bind]
      exact Within.bind (captureLogs_samples.mono (fun _ => Samples.looks) fun _ h => h)
        fun logs _ => Within.perform trivial fun finishedAt => Within.pure ⟨_, rfl, rfl, rfl⟩
    let Known : Trace → Prop := fun t => Stage config request True X s t ∧
      t.Called (.getPackageDetails dnpName) (.ok details)
    have hknown : Known (⟨.pm (.getPackageDetails dnpName), .ok details⟩ :: t) :=
      ⟨hX.stage hquiet h, List.mem_cons_self ..⟩
    refine ((hrest _ rfl).safe Known trivial hknown ?_ ?_ ?_).mono ?_
    · exact fun asked _ hlooks _ _ => (Quiet.of_looks hlooks).conducted
    · intro asked earlier answer after hlooks _ hbefore hanswer
      cases hanswer
      exact ⟨hX.stage (Quiet.of_looks hlooks) hbefore.1, List.mem_cons_of_mem _ hbefore.2⟩
    · exact fun _ _ _ _ _ _ hdrift => hdrift.elim
    · intro r after _ hpost
      obtain ⟨⟨hstage, hcalled⟩, evidence, rfl, hpreview, hdetails⟩ := hpost
      exact ⟨hstage, hpreview, details, hdetails, hcalled⟩

/-- From the installation of a side to its checked capture. -/
theorem stabilizeAndCapture_meets {Y : Execution → Trace → Prop} (hX : Lasting X) (hY : Lasting Y)
    {package : ResolvedPackage} (hpackage : package = request.resolve) {side : Side}
    {version : Option PackageRef} (hside : side = baselineSide ∨ side = candidateSide)
    (hstores : Stores config request side version X Y) {startedAt : Timestamp}
    {preview : PreviewSummary} {installMs : Nat} :
    Reports config request comparing
      (fun s (t : Trace) => X s t ∧
        t.Called (.previewInstall request.package.dnpName version) (.ok preview))
      (stabilizeAndCapture ext config package side startedAt preview installMs) fun _ => Y := by
  subst hpackage
  have hcalled := hX.called (.previewInstall request.package.dnpName version) (.ok preview)
  refine Meets.bind (enterPhase_meets hcalled _) ?_
  intro _
  refine Meets.bind (look_meets hcalled.stage stabilize_within) ?_
  intro stabilization
  refine Meets.bind ((checkControl_meets hcalled).pre fun _ _ _ h => h.1) ?_
  intro _
  refine Meets.bind ((enterPhase_meets hcalled _).pre fun _ _ _ h => h.1) ?_
  intro _
  refine Meets.bind (capture_meets hcalled) ?_
  intro answer
  rcases answer with error | evidence
  · exact Meets.throw fun _ _ _ h => h.1.early h.2 rfl
  · refine Meets.bind (Q := fun _ => Stage config request (Fits evidence) Y) (Meets.update ?_)
      fun _ => ?_
    · intro s t _ hpre
      obtain ⟨⟨h, hX', hpreviewed⟩, hpreview, details, hdetails, hdetailed⟩ := hpre
      exact ⟨hstores.sofar hX' h ⟨preview, details, hpreview, hdetails, hpreviewed, hdetailed⟩,
        hstores.next hX'⟩
    have hsite : side.captureSite ≠ .analysis ∧ side.captureSite ≠ .cleanup := by
      rcases hside with rfl | rfl <;> simp [baselineSide, candidateSide]
    refine Meets.bind (saveFailure_meets hY hsite) ?_
    intro _
    refine Meets.ofExcept ?_ ?_
    · intro value s t hpassed _ hpre
      obtain ⟨⟨h, hY'⟩, _⟩ := hpre
      rcases appliedVersion_cases evidence side.name side.appliedReason with
        ⟨_, hfits⟩ | ⟨failure, hfailed, _⟩
      · exact ⟨{ h with
          fits := fun _ => h.fits hfits
          uncompared := fun hgiven => absurd trivial hgiven }, hY'⟩
      · cases hpassed.symm.trans hfailed
    · intro failure s t hfailed _ hpre
      rcases appliedVersion_cases evidence side.name side.appliedReason with
        ⟨hpassed, _⟩ | ⟨failure', hfailed', hverdict⟩
      · cases hpassed.symm.trans hfailed
      · cases hfailed.symm.trans hfailed'
        exact hpre.1.early hpre.2 hverdict

/-! ## The two sides -/

theorem runBaseline_meets {package : ResolvedPackage} (hpackage : package = request.resolve)
    {packages : List PackageSummary} :
    Reports config request comparing (Inspected config request.package.dnpName)
      (runBaseline ext config package packages)
      fun _ => Based config request.package.dnpName := by
  have hinspected := Enduring.inspectedStage config request.package.dnpName
  refine Meets.bind (Q := fun preview => Stage config request True fun s (t : Trace) =>
    Inspected config request.package.dnpName s t ∧ t.Called (.previewInstall
      request.package.dnpName request.package.baselineRef) (.ok preview)) ?_ fun preview => ?_
  · refine Meets.bind (enterPhase_meets Inspected.lasting _) ?_
    intro _
    subst hpackage
    exact (callOrFail_meets Inspected.lasting ⟨rfl, by simp⟩ (fun error => rfl)
      fun error => rfl).weaken (fun _ _ _ h => h)
      (fun _ _ _ _ h => ⟨h.1.1.1, h.1.1.2, h.2⟩) fun _ _ _ _ h => h
  have hcalled := hinspected.called
    (.previewInstall request.package.dnpName request.package.baselineRef) (.ok preview)
  refine Meets.bind (reuseInstalledBaseline_meets hcalled.toLasting) ?_
  intro reuse
  refine Meets.bind (enterPhase_meets hcalled.toLasting _) ?_
  intro _
  refine Meets.bind (hear_meets hcalled.stage .now trivial) ?_
  intro startedAt
  refine Meets.bind ((prepareBaseline_meets hcalled hpackage).pre fun _ _ _ h => h.1) ?_
  intro _
  refine Meets.bind (hear_meets hcalled.stage .now trivial) ?_
  intro finishedAt
  exact (stabilizeAndCapture_meets Inspected.lasting Based.lasting hpackage (Or.inl rfl)
    baselineStores).pre fun _ _ _ h => h.1

theorem Based.enduring (config : RunnerConfig) (target : DnpName) :
    Enduring config target (Based config target) where
  toLasting := Based.lasting
  inspected := fun h => h.toInspected
  authorize := fun h => { h with candidate := h.candidate }
  mutate := fun hmutates hupdates h =>
    { h with
      cleared := h.cleared.mutate hmutates
      notUpdated := not_updated_more h.notUpdated hupdates }
  noted := fun _ h => { h with candidate := h.candidate }

/-- The candidate's preview is on record. -/
abbrev Previewed (request : RunRequest) (preview : PreviewSummary)
    (X : Execution → Trace → Prop) (s : Execution) (t : Trace) : Prop :=
  X s t ∧ t.Called (.previewInstall request.package.dnpName
    (some request.package.candidateRef)) (.ok preview)

/-- The one installation of the candidate. -/
theorem updatePackage_meets {preview : PreviewSummary} :
    Reports config request comparing
      (Authorized (Previewed request preview (Based config request.package.dnpName)))
      (callOrFail (.updatePackage request.package.dnpName request.package.candidateRef)
        candidateInstallFailure)
      fun _ => Previewed request preview
        (Updated request.package.dnpName request.package.candidateRef) := by
  refine Meets.bind (Q := fun answer s (t : Trace) => ∃ earlier,
    t = ⟨.pm (.updatePackage request.package.dnpName request.package.candidateRef), answer⟩ ::
      earlier ∧ Stage config request True (Authorized
        (Previewed request preview (Based config request.package.dnpName))) s earlier)
    (Meets.ask ?_ fun answer s t h => ⟨t, rfl, h⟩) ?_
  · intro s t hpre
    obtain ⟨_, ⟨hbased, _⟩, _⟩ := hpre
    refine ⟨fun mutated hmutated => ?_, fun _ => hbased.notUpdated⟩
    cases hmutated
    exact hbased.cleared
  · intro answer
    rcases answer with error | _
    · refine Meets.throw ?_
      intro s t _ hpre
      obtain ⟨earlier, rfl, h⟩ := hpre
      exact Stage.reject h rfl rfl fun _ => h.2.1.1.candidate
    · refine Meets.pure ?_
      intro s t _ hpre
      obtain ⟨earlier, rfl, h, ⟨hbased, hpreviewed⟩, hauthorized⟩ := hpre
      have hrefused : Trace.Unrefused [⟨.pm (.updatePackage request.package.dnpName
          request.package.candidateRef), .ok ()⟩] := by
        rintro error ⟨dnpName, ref, hcalled⟩
        cases List.mem_singleton.mp hcalled
      exact ⟨h.more (fun _ hcleared => hcleared.mutate rfl) id hrefused (by simp) (by simp),
        ⟨hauthorized, hbased.baseline, hbased.uncompared, List.mem_cons_self ..⟩,
        List.mem_cons_of_mem _ hpreviewed⟩

theorem runCandidate_meets {package : ResolvedPackage} (hpackage : package = request.resolve) :
    Reports config request comparing (Based config request.package.dnpName)
      (runCandidate ext config package)
      fun _ => Captured request.package.dnpName request.package.candidateRef := by
  subst hpackage
  have hbased := Based.enduring config request.package.dnpName
  refine Meets.bind (Q := fun preview => Stage config request True
    (Previewed request preview (Based config request.package.dnpName))) ?_ fun preview => ?_
  · refine Meets.bind (enterPhase_meets Based.lasting _) ?_
    intro _
    exact (callOrFail_meets Based.lasting ⟨rfl, by simp⟩ (fun error => rfl)
      fun error => rfl).weaken (fun _ _ _ h => h)
      (fun _ _ _ _ h => ⟨h.1.1.1, h.1.1.2, h.2⟩) fun _ _ _ _ h => h
  have hcalled := hbased.called
    (.previewInstall request.package.dnpName (some request.package.candidateRef)) (.ok preview)
  have hupdated : Lasting (Previewed request preview
      (Updated request.package.dnpName request.package.candidateRef)) := Updated.lasting.called _ _
  refine Meets.bind (enterPhase_meets hcalled.toLasting _) ?_
  intro _
  refine Meets.bind (authorizeCleanup_meets hcalled) ?_
  intro _
  refine Meets.bind (hear_meets (Authorized.lasting hcalled.toLasting).stage .now trivial) ?_
  intro startedAt
  refine Meets.bind (updatePackage_meets.pre fun _ _ _ h => h.1) ?_
  intro _
  refine Meets.bind (hear_meets hupdated.stage .now trivial) ?_
  intro finishedAt
  exact (stabilizeAndCapture_meets Updated.lasting Captured.lasting rfl (Or.inr rfl)
    candidateStores).pre fun _ _ _ h => h.1

/-! ## Analysis -/

/-- The two captures have been compared, and the signal was clear when the analysis began. -/
structure Compared (config : RunnerConfig) (request : RunRequest)
    (old new : CaptureEvidence) (s : Execution) (t : Trace) : Prop
    extends Sofar config request True s t where
  authorized : s.cleanupAuthorized = true
  updated : t.Called (.updatePackage request.package.dnpName request.package.candidateRef) (.ok ())
  steady : t.Sticky → t.Uninterrupted
  stored : s.record.evidence.baseline = some old ∧ s.record.evidence.candidate = some new
  comparison : s.record.evidence.comparison = some (compare old new)

/-- The answer of the analyzer. -/
theorem analyze_meets (hcomparing : comparing) {old new : CaptureEvidence}
    {input : LogAnalysisInput} {F : Failure → Execution → Trace → Prop} :
    Meets (conduct config comparing) (Compared config request old new)
      (.run (ask (.analyze input))) (fun _ => Compared config request old new) F := by
  have hignores : Watch.Ignores (.analyze input) := trivial
  refine Meets.ask (fun _ _ _ => hcomparing) ?_
  intro answer s t h
  have hsofar : Sofar config request True s (⟨.analyze input, answer⟩ :: t) :=
    h.toSofar.more (fun _ hcleared => hcleared.ignore hignores) id
      (Trace.unrefused_of_not_updates id) (by simp) (by simp)
  exact { hsofar, h with
    updated := List.mem_cons_of_mem _ h.updated
    steady := fun hsticky =>
      (h.steady (hsticky.of_suffix (List.suffix_cons _ _))).more (by simp) }

/-- The save of the analysis ends the algorithm. -/
theorem saveAnalysis_meets {old new : CaptureEvidence} {analysis : LogAnalysisResult} :
    Meets (conduct config comparing) (Compared config request old new)
      (do
        .update (Execution.modify (setEvidence fun evidence =>
          { evidence with logAnalysis := some analysis }))
        saveFailure .analysis)
      (fun _ => Analyzed config request) (Early config request) := by
  let Kept : Execution → Trace → Prop := fun s t =>
    Compared config request old new s t ∧ s.record.evidence.logAnalysis.isSome
  refine Meets.bind (Q := fun _ => Kept) (Meets.update ?_) fun _ => Meets.mapError ?_
  · intro s t _ h
    exact ⟨{ h with requested := h.requested }, rfl⟩
  refine Meets.bind_read fun u => ?_
  refine Meets.bind (Q := fun outcome s (t : Trace) => ∃ earlier,
    t = ⟨.save .analysis s.record, outcome⟩ :: earlier ∧ Kept s earlier) (Meets.ask ?_ ?_) ?_
  · exact fun _ _ _ => trivial
  · intro outcome s t hpre
    obtain ⟨rfl, h⟩ := hpre
    exact ⟨t, rfl, h⟩
  · intro outcome
    have hquiet : ∀ record, Watch.Ignores (.save .analysis record) := fun _ => trivial
    rcases outcome with error | _
    · refine Meets.throw ?_
      intro s t _ hpre
      obtain ⟨earlier, rfl, h, _⟩ := hpre
      have hgrounds : Grounds config request s
          (⟨.save .analysis s.record, .error error⟩ :: earlier) :=
        h.toGrounds.more (fun _ hcleared => hcleared.ignore (hquiet s.record)) (by simp)
      exact { hgrounds with
        unanalyzed := fun record hsaved => by
          rcases List.mem_cons.mp hsaved with heq | hearlier
          · cases heq
          · exact h.unanalyzed record hearlier
        fits := Or.inl (h.fits trivial)
        exit := ⟨_, _, earlier, rfl, rfl, h.unrefused⟩
        uncaptured := fun hfailed => by cases hfailed }
    · refine Meets.pure ?_
      intro s t _ hpre
      obtain ⟨earlier, rfl, h, hanalysis⟩ := hpre
      have hgrounds : Grounds config request s (⟨.save .analysis s.record, .ok ()⟩ :: earlier) :=
        h.toGrounds.more (fun _ hcleared => hcleared.ignore (hquiet s.record)) (by simp)
      exact { hgrounds with
        fits := h.fits trivial
        bypassed := fun hmentions =>
          h.bypassed ((Transcript.mentions_cons.mp hmentions).resolve_left id)
        unbypassed := fun hmentions => h.unbypassed fun hearlier =>
          hmentions (Transcript.mentions_cons.mpr (Or.inr hearlier))
        unrefused := h.unrefused.more (Trace.unrefused_of_not_updates id)
        saved := List.mem_cons_self ..
        authorized := h.authorized
        updated := List.mem_cons_of_mem _ h.updated
        compared := ⟨old, new, h.stored.1, h.stored.2, h.comparison⟩
        analysis := hanalysis
        steady := fun hsticky =>
          (h.steady (hsticky.of_suffix (List.suffix_cons _ _))).more (by simp) }

theorem analyzeEvidence_meets (hcomparing : comparing) :
    Meets (conduct config comparing)
      (Stage config request True
        (Captured request.package.dnpName request.package.candidateRef))
      (analyzeEvidence ext) (fun _ => Analyzed config request) (Early config request) := by
  refine Meets.bind (phaseFailure_meets Captured.lasting _) ?_
  intro _
  refine Meets.bind_read fun u => ?_
  -- both captures are there, so the two checks for their presence pass
  cases hold : u.record.evidence.baseline with
  | none =>
      intro s t _ hpre
      obtain ⟨rfl, h, _⟩ := hpre
      have hbaseline := h.2.baseline
      simp [hold] at hbaseline
  | some old =>
  cases hnew : u.record.evidence.candidate with
  | none =>
      intro s t _ hpre
      obtain ⟨rfl, h, _⟩ := hpre
      have hcandidate := h.2.candidate
      simp [hnew] at hcandidate
  | some new =>
  let Read : Execution → Trace → Prop := fun s t => u = s ∧ Stage config request True
    (Captured request.package.dnpName request.package.candidateRef) s t ∧
    (t.Sticky → t.Uninterrupted)
  refine Meets.bind (Q := fun baseline s t => baseline = old ∧ Read s t)
    (Meets.pure fun _ _ _ h => ⟨rfl, h.1, h.2.1, h.2.2.2⟩) fun baseline => ?_
  refine Meets.bind (Q := fun candidate s t => candidate = new ∧ baseline = old ∧ Read s t)
    (Meets.pure fun _ _ _ h => ⟨rfl, h⟩) fun candidate => ?_
  refine Meets.bind (Q := fun _ => Compared config request old new) (Meets.update ?_) fun _ =>
    Meets.bind (analyze_meets hcomparing) fun answer => saveAnalysis_meets
  intro s t _ hpre
  obtain ⟨rfl, rfl, rfl, ⟨h, hcaptured⟩, hsteady⟩ := hpre
  exact { h with
    requested := h.requested
    uncompared := fun hgiven => absurd trivial hgiven
    sides := fun _ => ⟨hcaptured.baseline, hcaptured.candidate⟩
    authorized := hcaptured.authorized
    updated := hcaptured.updated
    steady := hsteady
    stored := ⟨hold, hnew⟩
    comparison := rfl }

/-! ## The whole algorithm -/

/-- A run that nothing is known of yet. -/
structure Untested (request : RunRequest) (s : Execution) (t : Trace) : Prop where
  requested : s.record.request = request
  unauthorized : s.cleanupAuthorized = false
  baseline : s.record.evidence.baseline = none
  candidate : s.record.evidence.candidate = none
  uncompared : s.record.evidence.comparison = none
  errors : s.record.errors = []
  notStarted : ¬ t.Mentions RunnerRequest.starts
  notUpdated : ¬ t.Mentions RunnerRequest.updates
  notBypassed : ¬ t.Mentions RunnerRequest.bypasses
  unanalyzed : ∀ record, ¬ t.Saved .analysis record
  uncleaned : ∀ record, ¬ t.Saved .cleanup record

theorem enter_meets {F : Failure → Execution → Trace → Prop} :
    Meets (conduct config comparing) (Untested request) (.run (enter .runAlgorithm))
      (fun _ => Stage config request True Opened) F := by
  refine Meets.ask (fun _ _ h => h.notStarted) ?_
  intro _ s t h
  refine ⟨?_, {
    unauthorized := h.unauthorized
    baseline := h.baseline
    candidate := h.candidate
    uncompared := h.uncompared
    started := ⟨_, List.mem_cons_self .., trivial⟩
    notUpdated := not_updated_more h.notUpdated id
    unmutated := rfl }⟩
  exact {
    requested := h.requested
    cleared := fun hauthorized => by simp [h.unauthorized] at hauthorized
    baseline := fun capture hcapture => by simp [h.baseline] at hcapture
    candidate := fun capture hcapture => by simp [h.candidate] at hcapture
    sides := fun hcompared => by simp [h.uncompared] at hcompared
    fits := fun _ => ⟨fun capture hcapture => by simp [h.baseline] at hcapture,
      fun capture hcapture => by simp [h.candidate] at hcapture⟩
    uncompared := fun hgiven => absurd trivial hgiven
    bypassed := fun hmentions =>
      absurd ((Transcript.mentions_cons.mp hmentions).resolve_left id) h.notBypassed
    unbypassed := fun _ => h.errors
    unanalyzed := unsaved_more h.unanalyzed (by simp)
    unrefused := by
      rintro error ⟨dnpName, ref, hcalled⟩
      refine h.notUpdated ⟨_, (List.mem_cons.mp hcalled).resolve_left (by simp), trivial⟩
    uncleaned := unsaved_more h.uncleaned (by simp) }

/-- The algorithm conducts itself, reaches its end `Analyzed`, or ends `Early`. -/
theorem runAlgorithm_meets (hcomparing : comparing) :
    Meets (conduct config comparing) (Untested request) (runAlgorithm ext config)
      (fun _ => Analyzed config request) (Early config request) := by
  refine Meets.bind enter_meets ?_
  intro _
  refine Meets.bind_read fun u => ?_
  by_cases hrequest : u.record.request = request
  · have hpackage : u.record.request.resolve = request.resolve := by rw [hrequest]
    refine Meets.bind ((preflight_meets hpackage).pre fun _ _ _ h => h.2) fun packages => ?_
    refine Meets.bind recordInventory_meets fun _ => ?_
    refine Meets.bind (runBaseline_meets hpackage) fun _ => ?_
    refine Meets.bind (runCandidate_meets hpackage) fun _ => ?_
    exact analyzeEvidence_meets hcomparing
  · intro s t _ hpre
    obtain ⟨rfl, h, _⟩ := hpre
    exact absurd h.requested hrequest

end Conduct

end PackageHarness
