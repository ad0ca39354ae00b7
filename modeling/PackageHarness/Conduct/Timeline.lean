/-
# PackageHarness.Conduct.Timeline — a record passes through its phases in order.

A record enters the phases in the order in which they are declared, each at most once, and is
completed only on entering the last one. The controller moves the record that it holds in memory
forward through its phases, the settlement moves it to the last phase unless it is there, and nothing
else touches its timeline; a save that fails leaves an earlier state behind, which is a timeline too.
-/
import PackageHarness.Conduct.Upkeep
import PackageHarness.Protocol.Algorithm

namespace PackageHarness

open Interaction Routine

/-! ## Timelines -/

namespace RunRecord

/-- The phases that the record has been in, in the declared order. -/
structure Ordered (record : RunRecord) : Prop where
  begins : record.phaseHistory.head?.map (·.phase) = some .queued
  increasing : record.phaseHistory.Pairwise fun earlier later =>
    earlier.phase.ctorIdx < later.phase.ctorIdx
  ends : record.phaseHistory.getLast?.map (·.phase) = some record.phase

/-- A record as it may be written. -/
structure Timely (record : RunRecord) : Prop extends Ordered record where
  completed : record.status = .completed → record.phase = .finished ∧ record.finishedAt.isSome
  queued : record.status = .queued → record.phase = .queued

/-- A record whose run is under way and has not got beyond the phase `latest`. -/
structure Underway (latest : ExecutionPhase) (record : RunRecord) : Prop extends Ordered record where
  running : record.status = .running
  reached : record.phase.ctorIdx ≤ latest.ctorIdx

/-- What a record says about its phases. -/
def timeline (record : RunRecord) :
    List PhaseTransition × ExecutionPhase × ExecutionStatus × Option Timestamp :=
  (record.phaseHistory, record.phase, record.status, record.finishedAt)

variable {record changed : RunRecord} {latest next : ExecutionPhase} {time : Timestamp}

theorem Ordered.le_phase (h : record.Ordered) :
    ∀ entry ∈ record.phaseHistory, entry.phase.ctorIdx ≤ record.phase.ctorIdx := by
  obtain ⟨last, hlast, hphase⟩ := Option.map_eq_some_iff.mp h.ends
  obtain ⟨earlier, hhistory⟩ := List.getLast?_eq_some_iff.mp hlast
  have hincreasing := h.increasing
  rw [hhistory, List.pairwise_append] at hincreasing
  intro entry hentry
  rw [hhistory] at hentry
  rcases List.mem_append.mp hentry with hearlier | hnew
  · have hlt := hincreasing.2.2 entry hearlier last (List.mem_singleton_self last)
    rw [hphase] at hlt
    exact Nat.le_of_lt hlt
  · rw [List.mem_singleton.mp hnew, hphase]

theorem phaseHistory_transition : (record.transition next time).phaseHistory =
    record.phaseHistory ++ [⟨next, time⟩] := rfl

/-- A later phase may be entered. -/
theorem Ordered.transition (h : record.Ordered) (hlt : record.phase.ctorIdx < next.ctorIdx) :
    (record.transition next time).Ordered where
  begins := by
    rw [phaseHistory_transition]
    cases hhistory : record.phaseHistory with
    | nil =>
        have hbegins := h.begins
        rw [hhistory] at hbegins
        cases hbegins
    | cons first rest =>
        have hbegins := h.begins
        rw [hhistory] at hbegins
        exact hbegins
  increasing := by
    rw [phaseHistory_transition, List.pairwise_append]
    refine ⟨h.increasing, List.pairwise_singleton _ _, ?_⟩
    intro entry hentry new hnew
    rw [List.mem_singleton.mp hnew]
    exact Nat.lt_of_le_of_lt (h.le_phase entry hentry) hlt
  ends := by
    rw [phaseHistory_transition, List.getLast?_append]
    rfl

theorem Ordered.of_timeline (h : record.Ordered) (hsame : changed.timeline = record.timeline) :
    changed.Ordered := by
  simp only [timeline, Prod.mk.injEq] at hsame
  obtain ⟨hhistory, hphase, _, _⟩ := hsame
  refine ⟨?_, ?_, ?_⟩
  · rw [hhistory]
    exact h.begins
  · rw [hhistory]
    exact h.increasing
  · rw [hhistory, hphase]
    exact h.ends

/-- What leaves the timeline as it was. -/
theorem Timely.of_timeline (h : record.Timely) (hsame : changed.timeline = record.timeline) :
    changed.Timely := by
  refine ⟨h.toOrdered.of_timeline hsame, ?_, ?_⟩
  all_goals
    simp only [timeline, Prod.mk.injEq] at hsame
    obtain ⟨_, hphase, hstatus, hfinished⟩ := hsame
  · rw [hstatus, hphase, hfinished]
    exact h.completed
  · rw [hstatus, hphase]
    exact h.queued

theorem Underway.of_timeline (h : record.Underway latest)
    (hsame : changed.timeline = record.timeline) : changed.Underway latest := by
  refine ⟨h.toOrdered.of_timeline hsame, ?_, ?_⟩
  all_goals
    simp only [timeline, Prod.mk.injEq] at hsame
    obtain ⟨_, hphase, hstatus, _⟩ := hsame
  · rw [hstatus]
    exact h.running
  · rw [hphase]
    exact h.reached

theorem Underway.timely (h : record.Underway latest) : record.Timely := by
  refine ⟨h.toOrdered, ?_, ?_⟩
  · intro hcompleted
    rw [h.running] at hcompleted
    cases hcompleted
  · intro hqueued
    rw [h.running] at hqueued
    cases hqueued

theorem Underway.mono (h : record.Underway latest) (hle : latest.ctorIdx ≤ next.ctorIdx) :
    record.Underway next :=
  ⟨h.toOrdered, h.running, Nat.le_trans h.reached hle⟩

theorem Underway.transition (h : record.Underway latest) (hlt : latest.ctorIdx < next.ctorIdx) :
    (record.transition next time).Underway next :=
  ⟨h.toOrdered.transition (Nat.lt_of_le_of_lt h.reached hlt), h.running, Nat.le_refl _⟩

theorem claimed_timely (request : RunRequest) (token : String) (now : Timestamp) :
    (claimed request token now).Timely := by
  refine ⟨⟨rfl, List.pairwise_singleton _ _, rfl⟩, ?_, fun _ => rfl⟩
  intro hcompleted
  cases hcompleted

theorem Timely.persisted (h : record.Timely) : record.persisted.Timely := h.of_timeline rfl

theorem Timely.start (h : record.Timely) (hqueued : record.status = .queued) :
    (record.start time).Underway .queued := by
  refine ⟨⟨h.begins, h.increasing, h.ends⟩, rfl, ?_⟩
  show record.phase.ctorIdx ≤ _
  rw [h.queued hqueued]

theorem Timely.interrupt (h : record.Timely) : (record.interrupt time).Timely := by
  refine ⟨⟨h.begins, h.increasing, h.ends⟩, ?_, ?_⟩
  · intro hcompleted
    cases hcompleted
  · intro hqueued
    cases hqueued


end RunRecord

/-! ## The algorithm -/

namespace Conduct

open Runner RunRecord

section Algorithm

variable {ext : Externals} {config : RunnerConfig} {run : RunId} {latest next : ExecutionPhase}
  {site : SaveSite} {α ε : Type} {F : ε → Execution → Unit → Prop} {request : RunnerRequest}
  {f : RunRecord → RunRecord} {P : RunRecord → Prop}

/-- The record that the controller holds, as an assertion about its routines. -/
abbrev holds (P : RunRecord → Prop) (s : Execution) (_ : Unit) : Prop := P s.record

/-- Code of the algorithm that enters the phases up to `last`, in a run that has got to `first`. -/
abbrev Traverses (run : RunId) (first last : ExecutionPhase) (m : Algorithm α) : Prop :=
  Meets (runnerUpkeep Timely run) (holds (Underway first)) m (fun _ => holds (Underway last))
    fun _ => holds (Underway .analysis)

/-- The algorithm does not get beyond the analysis. -/
abbrev BeforeCleanup (latest : ExecutionPhase) : Prop := latest.ctorIdx ≤ ExecutionPhase.analysis.ctorIdx

theorem throw_underway (hearly : BeforeCleanup latest) {failure : Failure} {Q : α → Execution → Unit → Prop} :
    Meets (runnerUpkeep Timely run) (holds (Underway latest)) (.throw failure : Algorithm α) Q
      fun _ => holds (Underway .analysis) :=
  Meets.throw fun _ _ _ h => h.mono hearly

theorem ask_holds (hwrites : request.Writes Timely) :
    Meets (runnerUpkeep Timely run) (holds P) (.run (Runner.ask request)) (fun _ => holds P) F :=
  Meets.keptRunner (P := fun s : Execution => P s.record) (Q := fun _ s => P s.record)
    (fun _ _ => hwrites) fun _ _ _ h => h

theorem unwritten_holds {allowed : RunnerRequest → Prop} {post : α → Prop} {p : Runner α}
    (hp : Within allowed post p) (hallowed : ∀ request, allowed request → request.Writes Timely) :
    Meets (runnerUpkeep Timely run) (holds P) (.run p) (fun _ => holds P) F :=
  Meets.unwritten (P := fun s : Execution => P s.record) hp hallowed

theorem modify_underway (hf : ∀ r, (f r).timeline = r.timeline) :
    Meets (runnerUpkeep Timely run) (holds (Underway latest)) (.update (Execution.modify f))
      (fun _ => holds (Underway latest)) F :=
  Meets.update fun _ _ _ h => h.of_timeline (hf _)

/-- A save, from an assertion that makes the record timely. -/
theorem saveRecord_timely (hP : ∀ record, P record → record.Timely) :
    Meets (runnerUpkeep Timely run) (holds P) (saveRecord site) (fun _ => holds P)
      (fun _ => holds P) := by
  refine Meets.bind_read fun u => ?_
  refine Meets.bind (Q := fun _ => holds P) ?_ fun answer => ?_
  · refine (Meets.keptRunner (P := fun s => u = s ∧ P s.record) (Q := fun _ s => P s.record)
      ?_ ?_).pre fun _ _ _ h => h
    · rintro s ⟨rfl, h⟩
      exact hP _ h
    · exact fun _ _ _ h => h.2
  · rcases answer with error | _
    · exact Meets.throw fun _ _ _ h => h
    · exact Meets.pure fun _ _ _ h => h

theorem save_underway : Meets (runnerUpkeep Timely run) (holds (Underway latest))
    (saveRecord site) (fun _ => holds (Underway latest)) (fun _ => holds (Underway latest)) :=
  saveRecord_timely fun _ h => h.timely

theorem saveFailure_underway (hearly : BeforeCleanup latest) :
    Traverses run latest latest (saveFailure site) :=
  Meets.mapError (save_underway.weaken (fun _ _ _ h => h) (fun _ _ _ _ h => h)
    fun _ _ _ _ h => h.mono hearly)

/-- The record in memory is in the new phase, whether or not that was saved. -/
theorem phase_underway (hlt : latest.ctorIdx < next.ctorIdx) :
    Meets (runnerUpkeep Timely run) (holds (Underway latest)) (phase next)
      (fun _ => holds (Underway next)) (fun _ => holds (Underway next)) := by
  refine Meets.bind (ask_holds trivial) fun time => ?_
  refine Meets.bind (Q := fun _ => holds (Underway next)) (Meets.update ?_) fun _ => ?_
  · exact fun _ _ _ h => h.transition hlt
  refine Meets.bind save_underway fun _ => ?_
  exact Meets.bind_read_any fun u => ask_holds trivial

theorem checkControl_underway (hearly : BeforeCleanup latest) : Traverses run latest latest checkControl := by
  refine Meets.bind (ask_holds trivial) fun signal => ?_
  exact Meets.ofExcept (fun _ _ _ _ _ h => h) fun _ _ _ _ _ h => h.mono hearly

theorem phaseFailure_underway (hlt : latest.ctorIdx < next.ctorIdx) (hearly : BeforeCleanup next) :
    Traverses run latest next (phaseFailure next) :=
  Meets.bind (Meets.mapError ((phase_underway hlt).weaken (fun _ _ _ h => h)
    (fun _ _ _ _ h => h) fun _ _ _ _ h => h.mono hearly)) fun _ => checkControl_underway hearly

theorem callOrFail_underway (hearly : BeforeCleanup latest) {call : PmCall}
    {failure : PackageManagerError → Failure} :
    Traverses run latest latest (callOrFail call failure) := by
  refine Meets.bind (ask_holds trivial) fun answer => ?_
  rcases answer with error | reply
  · exact throw_underway hearly
  · exact Meets.pure fun _ _ _ h => h

theorem failWhen_underway (hearly : BeforeCleanup latest) {condition : Bool} {failure : Failure} :
    Traverses run latest latest (failWhen condition failure) := by
  unfold failWhen
  split
  · exact throw_underway hearly
  · exact Meets.pure fun _ _ _ h => h

theorem authorizeCleanup_underway (hearly : BeforeCleanup latest) :
    Traverses run latest latest authorizeCleanup := by
  refine Meets.bind_read_any fun u => ?_
  split
  · exact Meets.pure fun _ _ _ h => h
  · refine Meets.bind (Q := fun _ => holds (Underway latest)) (Meets.update ?_) fun _ => ?_
    · intro s _ _ h
      have hsame : (requireCleanup s.record).timeline = s.record.timeline := rfl
      exact h.of_timeline hsame
    refine Meets.bind (saveFailure_underway hearly) fun _ => ?_
    exact Meets.bind_read_any fun v => ask_holds trivial

theorem preflight_underway {package : ResolvedPackage} :
    Traverses run .queued .preflight (preflight config package) := by
  have hearly : BeforeCleanup .preflight := by decide
  refine Meets.bind (phaseFailure_underway (by decide) hearly) fun _ => ?_
  refine Meets.bind (callOrFail_underway hearly) fun tools => ?_
  refine Meets.bind (failWhen_underway hearly) fun _ => ?_
  refine Meets.bind (failWhen_underway hearly) fun _ => ?_
  refine Meets.bind (callOrFail_underway hearly) fun packages => ?_
  exact Meets.bind (failWhen_underway hearly) fun _ => Meets.pure fun _ _ _ h => h

theorem recordInventory_underway (hearly : BeforeCleanup latest) {package : ResolvedPackage}
    {packages : List PackageSummary} :
    Traverses run latest latest (recordInventory package packages) := by
  refine Meets.bind (modify_underway fun _ => rfl) fun _ => ?_
  refine Meets.bind (saveFailure_underway hearly) fun _ => ?_
  refine Meets.bind (modify_underway fun _ => rfl) fun _ => ?_
  exact saveFailure_underway hearly

theorem reuseInstalledBaseline_underway {package : ResolvedPackage}
    {installed : Option PackageSummary} {preview : PreviewSummary} :
    Traverses run latest latest (reuseInstalledBaseline package installed preview) := by
  unfold reuseInstalledBaseline
  split
  · refine Meets.bind (ask_holds trivial) fun answer => ?_
    rcases answer with error | details
    · exact Meets.pure fun _ _ _ h => h
    · exact Meets.pure fun _ _ _ h => h
  · exact Meets.pure fun _ _ _ h => h

theorem removeInstalled_underway (hearly : BeforeCleanup latest) {package : ResolvedPackage} :
    Traverses run latest latest (removeInstalled package) := by
  refine Meets.bind (ask_holds trivial) fun answer => ?_
  rcases answer with error | _
  · exact failWhen_underway hearly
  · exact Meets.pure fun _ _ _ h => h

theorem installBypassingSignature_underway (hearly : BeforeCleanup latest) {package : ResolvedPackage}
    {rejection : PackageManagerError} :
    Traverses run latest latest (installBypassingSignature package rejection) := by
  refine Meets.bind (ask_holds trivial) fun answer => ?_
  rcases answer with error | _
  · exact throw_underway hearly
  · exact Meets.bind (modify_underway fun _ => rfl) fun _ => saveFailure_underway hearly

theorem installBaseline_underway (hearly : BeforeCleanup latest) {package : ResolvedPackage} :
    Traverses run latest latest (installBaseline package) := by
  refine Meets.bind (ask_holds trivial) fun answer => ?_
  rcases answer with error | _
  · dsimp only
    split
    · exact installBypassingSignature_underway hearly
    · exact throw_underway hearly
  · exact Meets.pure fun _ _ _ h => h

theorem prepareBaseline_underway (hearly : BeforeCleanup latest) {package : ResolvedPackage}
    {installed : Option PackageSummary} {reuse : Bool} :
    Traverses run latest latest (prepareBaseline package installed reuse) := by
  unfold prepareBaseline
  split
  · exact Meets.pure fun _ _ _ h => h
  · refine Meets.bind (authorizeCleanup_underway hearly) fun _ => ?_
    dsimp only
    split
    · exact Meets.bind (removeInstalled_underway hearly) fun _ => installBaseline_underway hearly
    · exact installBaseline_underway hearly

theorem stabilizeAndCapture_underway {package : ResolvedPackage} {side : Side}
    (henters : latest.ctorIdx < side.stabilizationPhase.ctorIdx)
    (hcaptures : side.stabilizationPhase.ctorIdx < side.capturePhase.ctorIdx)
    (hearly : BeforeCleanup side.capturePhase) {startedAt : Timestamp} {preview : PreviewSummary}
    {installMs : Nat} :
    Traverses run latest side.capturePhase
      (stabilizeAndCapture ext config package side startedAt preview installMs) := by
  have hstabilizes : BeforeCleanup side.stabilizationPhase := Nat.le_trans (Nat.le_of_lt hcaptures) hearly
  refine Meets.bind (phaseFailure_underway henters hstabilizes) fun _ => ?_
  refine Meets.bind (unwritten_holds stabilize_samples fun _ => writes_of_samples) fun stabilization => ?_
  refine Meets.bind (checkControl_underway hstabilizes) fun _ => ?_
  refine Meets.bind (phaseFailure_underway hcaptures hearly) fun _ => ?_
  refine Meets.bind (unwritten_holds capture_samples fun _ => writes_of_samples) fun captured => ?_
  rcases captured with error | evidence
  · exact throw_underway hearly
  · refine Meets.bind (modify_underway fun _ => rfl) fun _ => ?_
    refine Meets.bind (saveFailure_underway hearly) fun _ => ?_
    exact Meets.ofExcept (fun _ _ _ _ _ h => h) fun _ _ _ _ _ h => h.mono hearly

theorem runBaseline_underway {package : ResolvedPackage} {packages : List PackageSummary} :
    Traverses run .preflight .baselineCapture (runBaseline ext config package packages) := by
  have hpreview : BeforeCleanup .baselinePreview := by decide
  have hinstall : BeforeCleanup .baselineInstall := by decide
  refine Meets.bind (Meets.bind (phaseFailure_underway (by decide) hpreview) fun _ =>
    callOrFail_underway hpreview) fun preview => ?_
  refine Meets.bind reuseInstalledBaseline_underway fun reuse => ?_
  refine Meets.bind (phaseFailure_underway (by decide) hinstall) fun _ => ?_
  refine Meets.bind (ask_holds trivial) fun startedAt => ?_
  refine Meets.bind (prepareBaseline_underway hinstall) fun _ => ?_
  refine Meets.bind (ask_holds trivial) fun finishedAt => ?_
  exact stabilizeAndCapture_underway (by decide) (by decide) (by decide)

theorem runCandidate_underway {package : ResolvedPackage} :
    Traverses run .baselineCapture .candidateCapture (runCandidate ext config package) := by
  have hpreview : BeforeCleanup .candidatePreview := by decide
  have hinstall : BeforeCleanup .candidateInstall := by decide
  refine Meets.bind (Meets.bind (phaseFailure_underway (by decide) hpreview) fun _ =>
    callOrFail_underway hpreview) fun preview => ?_
  refine Meets.bind (phaseFailure_underway (by decide) hinstall) fun _ => ?_
  refine Meets.bind (authorizeCleanup_underway hinstall) fun _ => ?_
  refine Meets.bind (ask_holds trivial) fun startedAt => ?_
  refine Meets.bind (callOrFail_underway hinstall) fun _ => ?_
  refine Meets.bind (ask_holds trivial) fun finishedAt => ?_
  exact stabilizeAndCapture_underway (by decide) (by decide) (by decide)

theorem presentEvidence_underway (hearly : BeforeCleanup latest) {side : String}
    {capture : Option CaptureEvidence} :
    Traverses run latest latest (presentEvidence side capture) := by
  cases capture with
  | none => exact throw_underway hearly
  | some capture => exact Meets.pure fun _ _ _ h => h

theorem analyzeEvidence_underway :
    Traverses run .candidateCapture .analysis (analyzeEvidence ext) := by
  have hearly : BeforeCleanup .analysis := Nat.le_refl _
  refine Meets.bind (phaseFailure_underway (by decide) hearly) fun _ => ?_
  refine Meets.bind_read_any fun u => ?_
  refine Meets.bind (presentEvidence_underway hearly) fun baseline => ?_
  refine Meets.bind (presentEvidence_underway hearly) fun candidate => ?_
  refine Meets.bind (modify_underway fun _ => rfl) fun _ => ?_
  refine Meets.bind (ask_holds trivial) fun answer => ?_
  refine Meets.bind (modify_underway fun _ => rfl) fun _ => ?_
  exact saveFailure_underway hearly

/-- However the algorithm ends, the run is under way and not yet in cleanup. -/
theorem runAlgorithm_underway : Traverses run .queued .analysis (runAlgorithm ext config) := by
  refine Meets.bind (ask_holds trivial) fun _ => ?_
  refine Meets.bind_read_any fun u => ?_
  refine Meets.bind preflight_underway fun packages => ?_
  refine Meets.bind (recordInventory_underway (by decide)) fun _ => ?_
  refine Meets.bind runBaseline_underway fun _ => ?_
  exact Meets.bind runCandidate_underway fun _ => analyzeEvidence_underway

end Algorithm

/-! ## The whole run -/

section Drive

variable {ext : Externals} {config : RunnerConfig} {run : RunId}

/-- A run that has been concluded in memory and is about to enter its last phase. -/
structure Sealed (record : RunRecord) : Prop extends Ordered record where
  completed : record.status = .completed
  stamped : record.finishedAt.isSome
  unfinished : record.phase.ctorIdx < ExecutionPhase.finished.ctorIdx

theorem conclude_sealed {record : RunRecord} (h : record.Underway .cleanup)
    {failure : Option Failure} {finished : Timestamp} :
    Sealed (conclude ext failure finished record) := by
  have hkept : ∀ record : RunRecord, (noteCleanupFailure record).phaseHistory = record.phaseHistory ∧
      (noteCleanupFailure record).phase = record.phase := by
    intro record
    unfold noteCleanupFailure
    split <;> exact ⟨rfl, rfl⟩
  obtain ⟨hhistory, hphase⟩ := hkept record
  have hlater : (conclude ext failure finished record).phaseHistory = record.phaseHistory := hhistory
  have hstays : (conclude ext failure finished record).phase = record.phase := hphase
  refine ⟨⟨?_, ?_, ?_⟩, rfl, rfl, ?_⟩
  · rw [hlater]
    exact h.begins
  · rw [hlater]
    exact h.increasing
  · rw [hlater, hstays]
    exact h.ends
  · rw [hstays]
    have hreached := h.reached
    have hlast : ExecutionPhase.cleanup.ctorIdx < ExecutionPhase.finished.ctorIdx := by decide
    omega

theorem Sealed.finish {record : RunRecord} (h : Sealed record) {time : Timestamp} :
    (record.transition .finished time).Timely := by
  refine ⟨h.toOrdered.transition h.unfinished, fun _ => ⟨rfl, h.stamped⟩, ?_⟩
  intro hqueued
  rw [show (record.transition .finished time).status = record.status from rfl, h.completed] at hqueued
  cases hqueued

theorem noteFailure_underway {latest : ExecutionPhase} {result : Except Failure Unit} :
    Meets (runnerUpkeep Timely run) (holds (Underway latest)) (noteFailure result)
      (fun _ => holds (Underway latest)) (fun _ _ _ => True) := by
  rcases result with failure | _
  · exact Meets.bind (modify_underway fun _ => rfl) fun _ => Meets.pure fun _ _ _ h => h
  · exact Meets.pure fun _ _ _ h => h

theorem cleanUp_underway :
    Meets (runnerUpkeep Timely run) (holds (Underway .analysis)) (cleanUp config)
      (fun _ => holds (Underway .cleanup)) (fun _ _ _ => True) := by
  refine Meets.bind_read_any fun u => ?_
  split
  · refine Meets.bind ((phase_underway (by decide)).weaken (fun _ _ _ h => h)
      (fun _ _ _ _ h => h) fun _ _ _ _ _ => trivial) fun _ => ?_
    refine Meets.bind_read_any fun v => ?_
    refine Meets.bind (unwritten_holds reconcileTarget_within fun _ => writes_of_reconciles) fun outcome => ?_
    refine Meets.bind (modify_underway fun _ => rfl) fun _ => ?_
    exact save_underway.weaken (fun _ _ _ h => h) (fun _ _ _ _ h => h) fun _ _ _ _ _ => trivial
  · refine Meets.update fun s _ _ h => ?_
    have hsame : (skipCleanup s.record).timeline = s.record.timeline := rfl
    exact (h.of_timeline hsame).mono (by decide)

/-- A run that is started ends in its last phase, if it does not stop before. -/
theorem drive_timely {record : RunRecord} (h : record.Timely) (hqueued : record.status = .queued) :
    Safe (runnerUpkeep Timely run) (fun _ _ => True) (drive ext config { record := record }) () := by
  let Queued : RunRecord → Prop := fun record => record.Timely ∧ record.status = .queued
  suffices hmeets : Meets (runnerUpkeep Timely run) (holds Queued) (drive ext config)
      (fun _ _ _ => True) (fun _ _ _ => True) by
    exact (hmeets _ () trivial ⟨h, hqueued⟩).mono fun _ _ _ _ => trivial
  refine Meets.bind (ask_holds trivial) fun started => ?_
  refine Meets.bind (Q := fun _ => holds (Underway .queued)) (Meets.update ?_) fun _ => ?_
  · exact fun _ _ _ h => h.1.start h.2
  refine Meets.bind (save_underway.weaken (fun _ _ _ h => h) (fun _ _ _ _ h => h)
    fun _ _ _ _ _ => trivial) fun _ => ?_
  refine Meets.bind_read_any fun u => ?_
  refine Meets.bind (ask_holds trivial) fun _ => ?_
  refine Meets.bind (Q := fun _ => holds (Underway .analysis))
    (Meets.attempt runAlgorithm_underway) fun result => ?_
  refine Meets.bind noteFailure_underway fun failure => ?_
  refine Meets.bind cleanUp_underway fun _ => ?_
  refine Meets.bind (ask_holds trivial) fun finished => ?_
  refine Meets.bind (Q := fun _ => holds Sealed) (Meets.update ?_) fun _ => ?_
  · exact fun _ _ _ h => conclude_sealed h
  refine Meets.bind (ask_holds trivial) fun time => ?_
  refine Meets.bind (Q := fun _ => holds Timely) (Meets.update ?_) fun _ => ?_
  · exact fun _ _ _ h => h.finish
  refine Meets.bind ((saveRecord_timely fun _ h => h).weaken (fun _ _ _ h => h)
    (fun _ _ _ _ h => h) fun _ _ _ _ _ => trivial) fun _ => ?_
  refine Meets.bind_read_any fun u => ?_
  refine (ask_holds (P := Timely) ?_).weaken (fun _ _ _ h => h) (fun _ _ _ _ _ => trivial)
    fun _ _ _ _ h => h
  trivial

/-- An execution starts from a timely record, if it finds one. -/
theorem execute_timely :
    Safe (upkeep Timely) (fun _ _ => True) (Worker.onBehalf run (execute ext config run)) () := by
  refine Safe.translate (Safe.request_still (fun _ _ hdrift => hdrift.elim) trivial trivial ?_)
  rintro _ after ⟨answer, rfl, hfound⟩ _
  rcases answer with error | (_ | found)
  · exact Safe.pure trivial trivial
  · exact Safe.pure trivial trivial
  · show Safe _ _ (if found.status ≠ .queued then Program.pure (.ok ()) else
      (drive ext config { record := found }).bind fun c => Program.pure c.1) _
    split
    · exact Safe.pure trivial trivial
    · next hqueued =>
        refine (drive_timely (hfound found rfl) (Decidable.not_not.mp hqueued)).bind ?_
        exact fun _ _ _ _ => Safe.pure trivial trivial

end Drive

end Conduct

end PackageHarness
