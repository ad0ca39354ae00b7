/-
# PackageHarness.Conduct.Stages — assertions about the algorithm and the trace that it leaves.

`Sofar` holds at every point of the algorithm and `Early` where it has ended early: then the last
answer alone decides the verdict. A `Stage` adds what has been established on the way, and the rules
at the end say which steps of controller code keep a stage.
-/
import PackageHarness.Conduct.Trace

namespace PackageHarness

open Interaction Routine

/-! ## Captures -/

/-- What the check of a capture lets through. -/
structure Fits (capture : CaptureEvidence) : Prop where
  version : ∀ expected reported,
    capture.preview.bind PreviewSummary.semanticVersion = some expected →
    Runner.reportedVersion (some capture) = some reported → expected = reported
  origin : ∀ details, capture.details = some details →
    sameInstallOrigin (capture.preview.bind (·.resolvedRef)) details.origin = true

namespace Runner

theorem appliedOrigin_cases (capture : CaptureEvidence) (side : String) (reason : ReasonCode) :
    (appliedVersion.appliedOrigin capture side reason = .ok () ∧
      ∀ details, capture.details = some details →
        sameInstallOrigin (capture.preview.bind (·.resolvedRef)) details.origin = true) ∨
    ∃ failure, appliedVersion.appliedOrigin capture side reason = .error failure ∧
      failure.verdict = .infrastructureError := by
  unfold appliedVersion.appliedOrigin
  cases hdetails : capture.details with
  | none => exact Or.inl ⟨rfl, fun details h => by cases h⟩
  | some details =>
      cases hsame : sameInstallOrigin (capture.preview.bind (·.resolvedRef)) details.origin with
      | true =>
          refine Or.inl ⟨by simp [hsame], fun found h => ?_⟩
          cases h
          exact hsame
      | false => exact Or.inr ⟨_, by simp only [hsame]; rfl, rfl⟩

/-- The check of a capture passes what fits, and fails with an infrastructure error. -/
theorem appliedVersion_cases (capture : CaptureEvidence) (side : String) (reason : ReasonCode) :
    (appliedVersion capture side reason = .ok () ∧ Fits capture) ∨
    ∃ failure, appliedVersion capture side reason = .error failure ∧
      failure.verdict = .infrastructureError := by
  unfold appliedVersion
  split
  · next expected reported hexpected hreported =>
      split
      · exact Or.inr ⟨_, rfl, rfl⟩
      · next hsame =>
          rcases appliedOrigin_cases capture side reason with
            ⟨hok, horigin⟩ | hfailed
          · refine Or.inl ⟨hok, fun version version' h h' => ?_, horigin⟩
            rw [hexpected] at h
            rw [hreported] at h'
            cases h
            cases h'
            exact Decidable.not_not.mp hsame
          · exact Or.inr hfailed
  · next hnone =>
      rcases appliedOrigin_cases capture side reason with
        ⟨hok, horigin⟩ | hfailed
      · exact Or.inl ⟨hok, fun version version' h h' => (hnone _ _ h h').elim, horigin⟩
      · exact Or.inr hfailed

end Runner

/-! ## The control signal -/

namespace Trace

/-- A signal that was raised stays raised. -/
def Sticky (t : Trace) : Prop :=
  ∀ later earlier signal, t = later ++ ⟨.control, signal⟩ :: earlier → signal ≠ .proceed →
    ∀ signal', ⟨.control, signal'⟩ ∈ later → signal' ≠ .proceed

/-- No signal was seen. -/
def Uninterrupted (t : Trace) : Prop := ∀ signal, ⟨.control, signal⟩ ∈ t → signal = .proceed

theorem Uninterrupted.sticky {t : Trace} (h : Uninterrupted t) : Sticky t := by
  intro later earlier signal heq hraised
  exact absurd (h signal (heq ▸ List.mem_append_right _ (List.mem_cons_self ..))) hraised

theorem Sticky.of_suffix {t u : Trace} (h : Sticky u) (hsuffix : t <:+ u) : Sticky t := by
  obtain ⟨more, rfl⟩ := hsuffix
  intro later earlier signal heq hraised signal' hlater
  exact h (more ++ later) earlier signal (by rw [heq, List.append_assoc]) hraised signal'
    (List.mem_append_right _ hlater)

/-- With a sticky signal, one clear answer says that all answers before it were clear. -/
theorem uninterrupted_of_clear {t : Trace} (h : Sticky (⟨.control, RunControl.proceed⟩ :: t)) :
    Uninterrupted (⟨.control, RunControl.proceed⟩ :: t) := by
  intro signal hmem
  rcases List.mem_cons.mp hmem with heq | hearlier
  · cases heq
    rfl
  · obtain ⟨later, earlier, rfl⟩ := List.append_of_mem hearlier
    by_cases hclear : signal = .proceed
    · exact hclear
    · exact absurd rfl (h (⟨.control, RunControl.proceed⟩ :: later) earlier signal rfl hclear
        .proceed (List.mem_cons_self ..))

theorem Uninterrupted.more {t : Trace} (h : Uninterrupted t) {request : RunnerRequest}
    {answer : request.Answer} (hrequest : request ≠ .control) :
    Uninterrupted (⟨request, answer⟩ :: t) := by
  intro signal hmem
  rcases List.mem_cons.mp hmem with heq | hearlier
  · cases heq
    exact absurd rfl hrequest
  · exact h signal hearlier

/-- The capture is of what the package manager said about its side in this execution. -/
def Taken (t : Trace) (dnpName : DnpName) (version : Option PackageRef)
    (capture : CaptureEvidence) : Prop :=
  ∃ preview details, capture.preview = some preview ∧ capture.details = some details ∧
    t.Called (.previewInstall dnpName version) (.ok preview) ∧
    t.Called (.getPackageDetails dnpName) (.ok details)

theorem Taken.more {t u : Trace} {dnpName : DnpName} {version : Option PackageRef}
    {capture : CaptureEvidence} (h : Taken t dnpName version capture) (hsuffix : t <:+ u) :
    Taken u dnpName version capture := by
  obtain ⟨preview, details, hpreview, hdetails, hpreviewed, hdetailed⟩ := h
  exact ⟨preview, details, hpreview, hdetails, hsuffix.subset hpreviewed,
    hsuffix.subset hdetailed⟩

end Trace

/-! ## What holds along the algorithm -/

/-- Requests that tell the algorithm nothing it keeps, and change nothing that it relies on. -/
def Quiet : RunnerRequest → Prop
  | .pm call => call.mutates = none ∧ ∀ purpose, call ≠ .listPackages purpose
  | .listPackagesWithin _ | .enter _ | .analyze _ => False
  | .save site _ => site ≠ .analysis ∧ site ≠ .cleanup
  | _ => True

theorem Quiet.ignores {request : RunnerRequest} (h : Quiet request) : Watch.Ignores request := by
  cases request with
  | pm call => exact h
  | listPackagesWithin remaining => exact h
  | enter point => exact h
  | _ => trivial

theorem Quiet.of_looks {request : RunnerRequest} (h : Runner.Looks request) : Quiet request := by
  cases request with
  | pm call => exact h
  | listPackagesWithin remaining => exact h
  | analyze input => exact h
  | save site record => exact h.elim
  | enter point => exact h
  | _ => trivial

theorem Quiet.not_bypasses {request : RunnerRequest} (h : Quiet request) :
    ¬ request.bypasses := by
  cases request with
  | pm call =>
      obtain ⟨hmutates, _⟩ := h
      cases call with
      | installPackageBypassingSignature dnpName version => cases hmutates
      | _ => exact id
  | _ => exact id

theorem Quiet.not_updates {request : RunnerRequest} (h : Quiet request) : ¬ request.updates := by
  cases request with
  | pm call =>
      obtain ⟨hmutates, _⟩ := h
      cases call with
      | updatePackage dnpName version => cases hmutates
      | _ => exact id
  | _ => exact id

theorem Quiet.conducted {config : RunnerConfig} {comparing : Prop} {asked : RunnerRequest}
    {t : Trace} (h : Quiet asked) :
    t.Conducted config comparing asked := by
  cases asked with
  | pm call =>
      refine ⟨fun target hmutates => ?_, fun hupdates => absurd hupdates h.not_updates⟩
      have hnone : call.mutates = none := h.1
      simp [hnone] at hmutates
  | analyze input => exact h.elim
  | enter point => exact h.elim
  | _ => trivial

/-- Every stored capture has passed its check. -/
def RunEvidence.Checked (evidence : RunEvidence) : Prop :=
  (∀ capture, evidence.baseline = some capture → Fits capture) ∧
    ∀ capture, evidence.candidate = some capture → Fits capture

/-- The error that notes a bypassed signature check is among these. -/
def NotesBypass (errors : List RunError) : Prop :=
  (errors.any fun error => error.code == .baselineSignatureInvalid) = true

/-- The surroundings of the controller, with the obligations of its requests. -/
abbrev conduct (config : RunnerConfig) (comparing : Prop) :
    Discipline RunnerRequest RunnerRequest.Answer Trace :=
  recorded (Trace.Conducted config comparing)

namespace Conduct

open Runner

section Assertions

variable (config : RunnerConfig) (request : RunRequest)

/-- What holds at every point of the algorithm and where it ends. -/
structure Grounds (s : Execution) (t : Trace) : Prop where
  requested : s.record.request = request
  cleared : s.cleanupAuthorized = true → t.Cleared config request.package.dnpName
  baseline : ∀ capture, s.record.evidence.baseline = some capture →
    t.Taken request.package.dnpName request.package.baselineRef capture
  candidate : ∀ capture, s.record.evidence.candidate = some capture →
    t.Taken request.package.dnpName (some request.package.candidateRef) capture
  sides : s.record.evidence.comparison.isSome →
    s.record.evidence.baseline.isSome ∧ s.record.evidence.candidate.isSome
  uncleaned : ∀ record, ¬ t.Saved .cleanup record

/-- The algorithm is under way. The stored captures have passed their checks if `given` holds, which
is open only between the moment a capture is stored and its check. -/
structure Sofar (given : Prop) (s : Execution) (t : Trace) : Prop
    extends Grounds config request s t where
  fits : given → s.record.evidence.Checked
  uncompared : ¬ given → s.record.evidence.comparison = none
  bypassed : t.Mentions RunnerRequest.bypasses → NotesBypass s.record.errors
  unbypassed : ¬ t.Mentions RunnerRequest.bypasses → s.record.errors = []
  unanalyzed : ∀ record, ¬ t.Saved .analysis record
  unrefused : t.Unrefused

/-- The algorithm has ended early. -/
structure Early (failure : Failure) (s : Execution) (t : Trace) : Prop
    extends Grounds config request s t where
  unanalyzed : ∀ record, ¬ t.Saved .analysis record
  fits : s.record.evidence.Checked ∨
    s.record.evidence.comparison = none ∧ failure.verdict = .infrastructureError
  exit : ∃ last answer earlier, t = ⟨last, answer⟩ :: earlier ∧
    failure.verdict = exitVerdict last answer ∧ Trace.Unrefused earlier
  uncaptured : failure.verdict = .failed → s.record.evidence.candidate = none

/-- The algorithm has reached its end. -/
structure Analyzed (s : Execution) (t : Trace) : Prop extends Grounds config request s t where
  fits : s.record.evidence.Checked
  bypassed : t.Mentions RunnerRequest.bypasses → NotesBypass s.record.errors
  unbypassed : ¬ t.Mentions RunnerRequest.bypasses → s.record.errors = []
  unrefused : t.Unrefused
  saved : t.Saved .analysis s.record
  authorized : s.cleanupAuthorized = true
  updated : t.Called (.updatePackage request.package.dnpName request.package.candidateRef) (.ok ())
  compared : ∃ baseline candidate, s.record.evidence.baseline = some baseline ∧
    s.record.evidence.candidate = some candidate ∧
    s.record.evidence.comparison = some (compare baseline candidate)
  analysis : s.record.evidence.logAnalysis.isSome
  steady : t.Sticky → t.Uninterrupted

/-- The algorithm is under way and has established `X`. -/
def Stage (given : Prop) (X : Execution → Trace → Prop) (s : Execution) (t : Trace) : Prop :=
  Sofar config request given s t ∧ X s t

variable (comparing : Prop)

/-- Code that leads from stage `X` to stage `Y`, or ends the algorithm early. -/
abbrev Reports {α : Type} (X : Execution → Trace → Prop) (m : Algorithm α)
    (Y : α → Execution → Trace → Prop) : Prop :=
  Meets (conduct config comparing) (Stage config request True X) m
    (fun a => Stage config request True (Y a)) (Early config request)

end Assertions

/-! ## One exchange more -/

section More

variable {config : RunnerConfig} {request : RunRequest} {given : Prop} {s : Execution}
  {t : Trace} {asked : RunnerRequest} {answer : asked.Answer} {failure : Failure}

/-- Nothing is saved at a place when something else is answered. -/
theorem unsaved_more {site : SaveSite} (h : ∀ record, ¬ t.Saved site record)
    (hother : ∀ record, asked ≠ .save site record) (record : RunRecord) :
    ¬ Trace.Saved (⟨asked, answer⟩ :: t) site record := by
  intro hsaved
  rcases List.mem_cons.mp hsaved with heq | hearlier
  · exact hother record (congrArg Exchange.request heq).symm
  · exact h record hearlier

theorem Grounds.more (h : Grounds config request s t)
    (hcleared : ∀ target, t.Cleared config target →
      Trace.Cleared config (⟨asked, answer⟩ :: t) target)
    (hother : ∀ record, asked ≠ .save .cleanup record) :
    Grounds config request s (⟨asked, answer⟩ :: t) where
  requested := h.requested
  cleared := fun hauthorized => hcleared _ (h.cleared hauthorized)
  baseline := fun capture hcapture => (h.baseline capture hcapture).more (List.suffix_cons _ _)
  candidate := fun capture hcapture => (h.candidate capture hcapture).more (List.suffix_cons _ _)
  sides := h.sides
  uncleaned := unsaved_more h.uncleaned hother

theorem Sofar.more (h : Sofar config request given s t)
    (hcleared : ∀ target, t.Cleared config target →
      Trace.Cleared config (⟨asked, answer⟩ :: t) target)
    (hbypass : ¬ asked.bypasses) (hrefused : Trace.Unrefused [⟨asked, answer⟩])
    (hother : ∀ record, asked ≠ .save .analysis record)
    (hother' : ∀ record, asked ≠ .save .cleanup record) :
    Sofar config request given s (⟨asked, answer⟩ :: t) where
  toGrounds := h.toGrounds.more hcleared hother'
  fits := h.fits
  uncompared := h.uncompared
  bypassed := fun hmentions =>
    h.bypassed ((Transcript.mentions_cons.mp hmentions).resolve_left hbypass)
  unbypassed := fun hmentions =>
    h.unbypassed fun hearlier => hmentions (Transcript.mentions_cons.mpr (Or.inr hearlier))
  unanalyzed := unsaved_more h.unanalyzed hother
  unrefused := h.unrefused.more hrefused

theorem Sofar.hear (h : Sofar config request given s t) (hquiet : Quiet asked) :
    Sofar config request given s (⟨asked, answer⟩ :: t) := by
  refine h.more (fun _ hcleared => hcleared.ignore hquiet.ignores) hquiet.not_bypasses
    (Trace.unrefused_of_not_updates hquiet.not_updates) ?_ ?_
  · intro record heq
    subst heq
    exact hquiet.1 rfl
  · intro record heq
    subst heq
    exact hquiet.2 rfl

/-- Ending right after an answer, with the verdict that the answer calls for. -/
theorem Sofar.leave (h : Sofar config request True s t)
    (hcleared : ∀ target, t.Cleared config target →
      Trace.Cleared config (⟨asked, answer⟩ :: t) target)
    (hother : ∀ site record, asked ≠ .save site record)
    (hverdict : failure.verdict = exitVerdict asked answer)
    (hfailed : failure.verdict = .failed → s.record.evidence.candidate = none) :
    Early config request failure s (⟨asked, answer⟩ :: t) where
  toGrounds := h.toGrounds.more hcleared (hother _)
  unanalyzed := unsaved_more h.unanalyzed (hother _)
  fits := Or.inl (h.fits trivial)
  exit := ⟨asked, answer, t, rfl, hverdict, h.unrefused⟩
  uncaptured := hfailed

end More

/-! ## Rules -/

/-- Quiet exchanges do not disturb the assertion. -/
def Hears (P : Execution → Trace → Prop) : Prop :=
  ∀ {s t asked} {answer : RunnerRequest.Answer asked}, Quiet asked → P s t →
    P s (⟨asked, answer⟩ :: t)

/-- A property that neither quiet exchanges nor changes of the phase disturb. -/
structure Lasting (X : Execution → Trace → Prop) : Prop where
  hears : Hears X
  phase : ∀ {s t} next time, X s t →
    X (Execution.modify (fun record => record.transition next time) s) t

/-- The last answer blames nobody. -/
def Blameless (t : Trace) : Prop :=
  ∃ asked answer earlier, t = ⟨asked, answer⟩ :: earlier ∧
    exitVerdict asked answer = .infrastructureError

section Rules

variable {config : RunnerConfig} {request : RunRequest} {comparing given : Prop}
  {P X : Execution → Trace → Prop} {α ε : Type} {F : ε → Execution → Trace → Prop}

theorem Lasting.stage (hX : Lasting X) : Hears (Stage config request given X) :=
  fun hquiet h => ⟨h.1.hear hquiet, hX.hears hquiet h.2⟩

theorem Stage.early {s : Execution} {t : Trace} {failure : Failure}
    (h : Stage config request given X s t) (hblameless : Blameless t)
    (hverdict : failure.verdict = .infrastructureError) : Early config request failure s t := by
  obtain ⟨asked, answer, earlier, rfl, hexit⟩ := hblameless
  exact { h.1.toGrounds with
    unanalyzed := h.1.unanalyzed
    fits := by
      by_cases hgiven : given
      · exact Or.inl (h.1.fits hgiven)
      · exact Or.inr ⟨h.1.uncompared hgiven, hverdict⟩
    exit := ⟨asked, answer, earlier, rfl, hverdict.trans hexit.symm, fun error hrefused =>
      h.1.unrefused error (Trace.refused_cons.mpr (Or.inr hrefused))⟩
    uncaptured := fun hfailed => by simp [hverdict] at hfailed }

theorem hear_meets (hP : Hears P) (asked : RunnerRequest) (hquiet : Quiet asked) :
    Meets (conduct config comparing) P (.run (ask asked))
      (fun answer s t => P s t ∧ ∃ earlier, t = ⟨asked, answer⟩ :: earlier ∧ P s earlier) F :=
  Meets.ask (fun _ _ _ => hquiet.conducted) fun _ _ t h => ⟨hP hquiet h, t, rfl, h⟩

/-- Code that only looks at a package. -/
theorem look_meets (hP : Hears P) {post : α → Prop} {p : Runner α} (h : Within Looks post p) :
    Meets (conduct config comparing) P (.run p)
      (fun a s t => P s t ∧ post a) F := by
  refine Meets.run ?_
  intro s t _ hstage
  refine h.safe (P s) trivial hstage ?_ ?_ ?_
  · exact fun asked _ hlooks _ _ => (Quiet.of_looks hlooks).conducted
  · intro asked earlier answer after hlooks _ hbefore hanswer
    cases hanswer
    exact hP (Quiet.of_looks hlooks) hbefore
  · exact fun _ _ _ _ _ _ hdrift => hdrift.elim

theorem saveRecord_meets (hP : Hears P) {site : SaveSite}
    (hsite : site ≠ .analysis ∧ site ≠ .cleanup) :
    Meets (conduct config comparing) P (saveRecord site)
      (fun _ s t => P s t ∧ Blameless t) (fun _ s t => P s t ∧ Blameless t) := by
  refine Meets.bind_read fun u => ?_
  refine Meets.bind (Q := fun _ s t => P s t ∧ Blameless t) ?_ fun outcome => ?_
  · refine (hear_meets hP (.save site u.record) hsite).weaken (fun _ _ _ h => h.2) ?_
      fun _ _ _ _ h => h
    intro answer s t _ h
    obtain ⟨hs, earlier, rfl, _⟩ := h
    exact ⟨hs, _, _, earlier, rfl, rfl⟩
  · rcases outcome with error | _
    · exact Meets.throw fun _ _ _ h => h
    · exact Meets.pure fun _ _ _ h => h

theorem saveFailure_meets (hX : Lasting X) {site : SaveSite}
    (hsite : site ≠ .analysis ∧ site ≠ .cleanup) :
    Meets (conduct config comparing) (Stage config request given X)
      (saveFailure site) (fun _ s t => Stage config request given X s t ∧ Blameless t)
      (Early config request) :=
  Meets.mapError ((saveRecord_meets hX.stage hsite).weaken (fun _ _ _ h => h)
    (fun _ _ _ _ h => h) fun _ _ _ _ h => h.1.early h.2 rfl)

theorem phase_meets (hX : Lasting X) (next : ExecutionPhase) :
    Meets (conduct config comparing) (Stage config request given X) (phase next)
      (fun _ => Stage config request given X)
      (fun _ s t => Stage config request given X s t ∧ Blameless t) := by
  refine Meets.bind (hear_meets hX.stage .now trivial) ?_
  intro time
  refine Meets.bind (Q := fun _ => Stage config request given X) (Meets.update ?_) fun _ => ?_
  · intro s t _ hpre
    obtain ⟨⟨h, hX'⟩, _⟩ := hpre
    exact ⟨{ h with requested := h.requested }, hX.phase next time hX'⟩
  refine Meets.bind (Q := fun _ => Stage config request given X)
    ((saveRecord_meets hX.stage (by simp)).weaken (fun _ _ _ h => h) (fun _ _ _ _ h => h.1)
      fun _ _ _ _ h => h) fun _ => ?_
  refine Meets.bind_read_any fun u => ?_
  exact (hear_meets hX.stage (.publish _ _) trivial).weaken (fun _ _ _ h => h)
    (fun _ _ _ _ h => h.1) fun _ _ _ _ h => h

/-- The control signal, read at a phase boundary. -/
theorem checkControl_meets (hX : Lasting X) :
    Meets (conduct config comparing) (Stage config request True X) checkControl
      (fun _ s (t : Trace) => Stage config request True X s t ∧ Blameless t ∧
        (t.Sticky → t.Uninterrupted))
      (Early config request) := by
  refine Meets.bind (hear_meets hX.stage .control trivial) ?_
  intro signal
  have leave : ∀ {failure : Failure} {s : Execution} {t : Trace},
      (Stage config request True X s t ∧ ∃ earlier, t = ⟨.control, signal⟩ :: earlier ∧
        Stage config request True X s earlier) →
      failure.verdict = exitVerdict .control signal → failure.verdict ≠ .failed →
      Early config request failure s t := by
    intro failure s t hpre hverdict hfailed
    obtain ⟨_, earlier, rfl, hbefore⟩ := hpre
    have hignores : Watch.Ignores .control := trivial
    exact hbefore.1.leave (fun _ h => h.ignore hignores) (by simp) hverdict
      fun h => absurd h hfailed
  cases signal with
  | proceed =>
      refine Meets.pure ?_
      intro s t _ hpre
      obtain ⟨hstage, earlier, rfl, _⟩ := hpre
      exact ⟨hstage, ⟨_, _, earlier, rfl, rfl⟩, Trace.uninterrupted_of_clear⟩
  | cancelRequested => exact Meets.throw fun _ _ _ h => leave h rfl (by simp)
  | claimLost => exact Meets.throw fun _ _ _ h => leave h rfl (by simp)

theorem phaseFailure_meets (hX : Lasting X) (next : ExecutionPhase) :
    Meets (conduct config comparing) (Stage config request True X)
      (phaseFailure next)
      (fun _ s (t : Trace) => Stage config request True X s t ∧ Blameless t ∧
        (t.Sticky → t.Uninterrupted))
      (Early config request) := by
  refine Meets.bind (Q := fun _ => Stage config request True X) (Meets.mapError ?_) fun _ =>
    checkControl_meets hX
  exact (phase_meets hX next).weaken (fun _ _ _ h => h) (fun _ _ _ _ h => h)
    fun _ _ _ _ h => h.1.early h.2 rfl

theorem enterPhase_meets (hX : Lasting X) (next : ExecutionPhase) :
    Reports config request comparing X (phaseFailure next) fun _ => X :=
  (phaseFailure_meets hX next).weaken (fun _ _ _ h => h) (fun _ _ _ _ h => h.1)
    fun _ _ _ _ h => h

theorem keepSaved_meets (hX : Lasting X) {site : SaveSite}
    (hsite : site ≠ .analysis ∧ site ≠ .cleanup) :
    Reports config request comparing X (saveFailure site) fun _ => X :=
  (saveFailure_meets hX hsite).weaken (fun _ _ _ h => h) (fun _ _ _ _ h => h.1)
    fun _ _ _ _ h => h

theorem failWhen_meets {condition : Bool} {failure : Failure}
    (hverdict : failure.verdict = .infrastructureError) :
    Meets (conduct config comparing)
      (fun s t => Stage config request given X s t ∧ Blameless t) (failWhen condition failure)
      (fun _ s t => (Stage config request given X s t ∧ Blameless t) ∧ condition = false)
      (Early config request) := by
  unfold failWhen
  split
  · exact Meets.throw fun _ _ _ h => h.1.early h.2 hverdict
  · next hfine => exact Meets.pure fun _ _ _ h => ⟨h, by simpa using hfine⟩

theorem callOrFail_meets (hX : Lasting X) {call : PmCall}
    {failure : PackageManagerError → Failure} (hquiet : Quiet (.pm call))
    (hverdict : ∀ error, (failure error).verdict = .infrastructureError)
    (hblame : ∀ error, blame call error = .infrastructureError) :
    Meets (conduct config comparing) (Stage config request True X)
      (callOrFail call failure)
      (fun reply s (t : Trace) => (Stage config request True X s t ∧ Blameless t) ∧
        t.Called call (.ok reply))
      (Early config request) := by
  refine Meets.bind (hear_meets hX.stage (.pm call) hquiet) ?_
  intro answer
  rcases answer with error | reply
  · refine Meets.throw ?_
    intro s t _ hpre
    obtain ⟨hstage, earlier, rfl, _⟩ := hpre
    exact hstage.early ⟨_, _, earlier, rfl, hblame error⟩ (hverdict error)
  · refine Meets.pure ?_
    intro s t _ hpre
    obtain ⟨hstage, earlier, rfl, _⟩ := hpre
    exact ⟨⟨hstage, _, _, earlier, rfl, rfl⟩, List.mem_cons_self ..⟩

/-- Updates that change neither the captures and their comparison nor the errors. -/
theorem modify_meets {f : RunRecord → RunRecord}
    (hf : ∀ record, (f record).request = record.request ∧
      (f record).evidence.baseline = record.evidence.baseline ∧
      (f record).evidence.candidate = record.evidence.candidate ∧
      (f record).evidence.comparison = record.evidence.comparison ∧
      (f record).errors = record.errors)
    (hX : ∀ s t, X s t → X (Execution.modify f s) t) :
    Meets (conduct config comparing) (Stage config request given X)
      (.update (Execution.modify f)) (fun _ => Stage config request given X) F := by
  refine Meets.update ?_
  intro s t _ hpre
  obtain ⟨h, hX'⟩ := hpre
  obtain ⟨hrequest, hbaseline, hcandidate, hcomparison, herrors⟩ := hf s.record
  refine ⟨⟨⟨hrequest.trans h.requested, h.cleared, ?_, ?_, ?_, h.uncleaned⟩, fun hgiven => ?_,
    fun hgiven => hcomparison.trans (h.uncompared hgiven), ?_, ?_, h.unanalyzed, h.unrefused⟩,
    hX s t hX'⟩
  · exact fun capture hcapture => h.baseline capture (hbaseline.symm.trans hcapture)
  · exact fun capture hcapture => h.candidate capture (hcandidate.symm.trans hcapture)
  · show (f s.record).evidence.comparison.isSome →
      (f s.record).evidence.baseline.isSome ∧ (f s.record).evidence.candidate.isSome
    rw [hcomparison, hbaseline, hcandidate]
    exact h.sides
  · obtain ⟨hfits, hfits'⟩ := h.fits hgiven
    exact ⟨fun capture hcapture => hfits capture (hbaseline.symm.trans hcapture),
      fun capture hcapture => hfits' capture (hcandidate.symm.trans hcapture)⟩
  · intro hmentions
    show NotesBypass (f s.record).errors
    rw [herrors]
    exact h.bypassed hmentions
  · exact fun hmentions => herrors.trans (h.unbypassed hmentions)

end Rules

end Conduct

end PackageHarness
