/-
# PackageHarness.Conduct.Execution — a whole execution, from the queued record to the result.

Whatever became of the algorithm, the tail cleans up and concludes. It mutates nothing but the
cleared target, asks for no signal and no analysis, and leaves what was captured as it was; the
result is a function of that evidence, of the cleanup and of the way in which the algorithm ended.
-/
import PackageHarness.Conduct.Algorithm

namespace PackageHarness

open Interaction Routine

/-! ## Executions and their conversations -/

/-- A record that waits for its execution. -/
structure RunRecord.Fresh (record : RunRecord) : Prop where
  queued : record.status = .queued
  evidence : record.evidence = {}
  errors : record.errors = []

theorem RunRecord.claimed_fresh (request : RunRequest) (token : String) (now : Timestamp) :
    (claimed request token now).Fresh :=
  ⟨rfl, rfl, rfl⟩

/-- What has been said when the algorithm starts. -/
def opening (runId : RunId) (record : RunRecord) (started : Timestamp) : Trace :=
  [⟨.publish record.phase record.worker.cleanupRequired, ()⟩,
    ⟨.save .started (record.start started), .ok ()⟩,
    ⟨.now, started⟩,
    ⟨.get runId, .ok (some record)⟩]

/-- An execution of a fresh record that has returned, and its conversation. -/
structure Executes (ext : Externals) (config : RunnerConfig) (runId : RunId) (record : RunRecord)
    (outcome : Except ControllerError Unit) (t : Trace) : Prop where
  fresh : record.Fresh
  found : [⟨.get runId, .ok (some record)⟩] <:+ t
  returned : Reaches recording (Runner.execute ext config runId, []) (.pure outcome, t)

/-- In this conversation the algorithm ended with `result`, in the local state `ended` and with
`part` of the conversation behind it. -/
structure AlgorithmEnds (ext : Externals) (config : RunnerConfig) (t : Trace)
    (result : Except Failure Unit) (ended : Execution) (part : Trace) : Prop where
  within : part <:+ t
  run : ∃ runId record started,
    Reaches recording
      (Runner.runAlgorithm ext config { record := record.start started },
        opening runId record started)
      (.pure (result, ended), part)

namespace Trace

/-- The execution has ended with the save of this record. -/
def Persisted (t : Trace) (final : RunRecord) : Prop :=
  ∃ published earlier, t = published :: ⟨.save (.phase .finished) final, .ok ()⟩ :: earlier

theorem Persisted.unique {t : Trace} {final final' : RunRecord} (h : t.Persisted final)
    (h' : t.Persisted final') : final = final' := by
  obtain ⟨published, earlier, rfl⟩ := h
  obtain ⟨published', earlier', heq⟩ := h'
  simp only [List.cons.injEq, Exchange.mk.injEq, RunnerRequest.save.injEq] at heq
  exact heq.2.1.1.2

end Trace

/-- A conversation has one end of the algorithm. -/
theorem AlgorithmEnds.unique {ext : Externals} {config : RunnerConfig} {t part part' : Trace}
    {result result' : Except Failure Unit} {ended ended' : Execution}
    (h : AlgorithmEnds ext config t result ended part)
    (h' : AlgorithmEnds ext config t result' ended' part') :
    result = result' ∧ ended = ended' ∧ part = part' := by
  obtain ⟨hwithin, runId, record, started, hrun⟩ := h
  obtain ⟨hwithin', runId', record', started', hrun'⟩ := h'
  -- both begin the same conversation
  have hopening : opening runId record started = opening runId' record' started' :=
    (List.suffix_of_suffix_length_le (hrun.suffix.trans hwithin) (hrun'.suffix.trans hwithin')
      (by simp [opening])).eq_of_length (by simp [opening])
  obtain ⟨rfl, rfl⟩ : record = record' ∧ started = started' := by
    simp only [opening, List.cons.injEq, Exchange.mk.injEq] at hopening
    obtain ⟨-, -, ⟨-, hstarted⟩, ⟨-, hrecord⟩, -⟩ := hopening
    exact ⟨by simpa using hrecord, by simpa using hstarted⟩
  obtain ⟨hends, hpart⟩ := (hopening ▸ hrun).unique hrun' hwithin hwithin'
  cases hends
  exact ⟨rfl, rfl, hpart⟩

/-! ## The cleanup tail -/

namespace Conduct

open Runner

/-- What the tail asks besides reconciling. -/
def Settles : RunnerRequest → Prop
  | .now | .publish _ _ | .save (.phase _) _ => True
  | _ => False

/-- What the tail may ask at all. -/
def Closes : RunnerRequest → Prop
  | .now | .publish _ _ | .save (.phase _) _ | .save .cleanup _ => True
  | .instant | .sleep _ | .listPackagesWithin _ => True
  | .pm (.listPackages _) | .pm (.removePackage _ _) | .pm (.installPackage _ _) => True
  | _ => False

/-- The conversation has grown by what the tail asks. -/
structure Tail (part t : Trace) : Prop where
  grown : part <:+ t
  closing : ∀ x ∈ t, x ∈ part ∨ Closes x.request

/-- What the tail leaves of the record as it was. -/
structure Keeps (result : Except Failure Unit) (ended record : RunRecord) : Prop where
  job : record.request = ended.request
  baseline : record.evidence.baseline = ended.evidence.baseline
  candidate : record.evidence.candidate = ended.evidence.candidate
  comparison : record.evidence.comparison = ended.evidence.comparison
  logAnalysis : record.evidence.logAnalysis = ended.evidence.logAnalysis
  errors : result = .ok () → record.errors = ended.errors

/-- The tail is under way. -/
structure Closing (config : RunnerConfig) (request : RunRequest) (result : Except Failure Unit)
    (ended : Execution) (part : Trace) (s : Execution) (t : Trace) : Prop
    extends Tail part t, Keeps result ended.record s.record where
  authorized : s.cleanupAuthorized = ended.cleanupAuthorized
  requested : s.record.request = request
  cleared : s.cleanupAuthorized = true → t.Cleared config request.package.dnpName
  uncleaned : ∀ record, ¬ t.Saved .cleanup record

/-- The target has been cleaned up, or nothing had to be cleaned up. -/
structure Cleaned (result : Except Failure Unit) (ended : Execution) (part : Trace)
    (cleaned : RunRecord) (t : Trace) : Prop
    extends Tail part t, Keeps result ended.record cleaned where
  reported : ∀ record, t.Saved .cleanup record → record.cleanup = cleaned.cleanup
  outcome : (ended.cleanupAuthorized = true ∧ (∃ record, t.Saved .cleanup record) ∧
      cleaned.cleanup.Settled) ∨
    (ended.cleanupAuthorized = false ∧ cleaned.cleanup.status = .skipped ∧
      ∀ record, ¬ t.Saved .cleanup record)

section Tail

variable {ext : Externals} {config : RunnerConfig} {request : RunRequest}
  {result : Except Failure Unit} {ended : Execution} {part t : Trace} {asked : RunnerRequest}
  {answer : asked.Answer}

theorem Settles.closes (h : Settles asked) : Closes asked := by
  cases asked with
  | save site record => cases site <;> first | exact h.elim | trivial
  | pm call => exact h.elim
  | _ => trivial

theorem Settles.quiet (h : Settles asked) : Quiet asked := by
  cases asked with
  | save site record => cases site <;> first | exact h.elim | exact ⟨by simp, by simp⟩
  | now => trivial
  | publish phase cleanupRequired => trivial
  | _ => exact h.elim

theorem Tail.refl : Tail t t := ⟨List.suffix_refl _, fun _ => Or.inl⟩

theorem Tail.more (h : Tail part t) (hcloses : Closes asked) :
    Tail part (⟨asked, answer⟩ :: t) where
  grown := h.grown.trans (List.suffix_cons _ _)
  closing := by
    intro x hx
    rcases List.mem_cons.mp hx with rfl | hearlier
    · exact Or.inr hcloses
    · exact h.closing x hearlier

theorem Tail.trans {u : Trace} (h : Tail part t) (h' : Tail t u) : Tail part u where
  grown := h.grown.trans h'.grown
  closing := by
    intro x hx
    rcases h'.closing x hx with hearlier | hcloses
    · exact h.closing x hearlier
    · exact Or.inr hcloses

/-- What the tail never asks was asked by the algorithm. -/
theorem Tail.mem_iff (h : Tail part t) {x : Exchange RunnerRequest RunnerRequest.Answer}
    (hx : ¬ Closes x.request) : x ∈ t ↔ x ∈ part :=
  ⟨fun hmem => (h.closing x hmem).resolve_right hx, fun hmem => h.grown.subset hmem⟩

theorem Tail.mentions_iff (h : Tail part t) {asks : RunnerRequest → Prop}
    (hasks : ∀ request, asks request → ¬ Closes request) :
    t.Mentions asks ↔ part.Mentions asks := by
  constructor
  · rintro ⟨x, hmem, hx⟩
    exact ⟨x, (h.mem_iff (hasks _ hx)).mp hmem, hx⟩
  · rintro ⟨x, hmem, hx⟩
    exact ⟨x, h.grown.subset hmem, hx⟩

theorem Closing.settle {s : Execution} (h : Closing config request result ended part s t)
    (hsettles : Settles asked) :
    Closing config request result ended part s (⟨asked, answer⟩ :: t) :=
  { h with
    toTail := h.toTail.more hsettles.closes
    cleared := fun hauthorized => (h.cleared hauthorized).ignore hsettles.quiet.ignores
    uncleaned := unsaved_more h.uncleaned fun record heq => by
      subst heq
      exact hsettles }

theorem Cleaned.settle {cleaned : RunRecord} (h : Cleaned result ended part cleaned t)
    (hsettles : Settles asked) :
    Cleaned result ended part cleaned (⟨asked, answer⟩ :: t) := by
  have hsaved : ∀ record, Trace.Saved (⟨asked, answer⟩ :: t) .cleanup record →
      t.Saved .cleanup record := by
    intro record hsaved
    rcases List.mem_cons.mp hsaved with heq | hearlier
    · cases heq
      exact hsettles.elim
    · exact hearlier
  refine { h with
    toTail := h.toTail.more hsettles.closes
    reported := fun record hrecord => h.reported record (hsaved record hrecord)
    outcome := ?_ }
  rcases h.outcome with ⟨hauthorized, ⟨record, hrecord⟩, hsettled⟩ | ⟨hauthorized, hskipped, hnone⟩
  · exact Or.inl ⟨hauthorized, ⟨record, List.mem_cons_of_mem _ hrecord⟩, hsettled⟩
  · exact Or.inr ⟨hauthorized, hskipped, fun record hrecord => hnone record (hsaved record hrecord)⟩

/-- A phase of the tail, with the save that it ends on. -/
theorem closePhase_meets {P : Execution → Trace → Prop} (next : ExecutionPhase)
    (hsettle : ∀ {s t asked} {answer : RunnerRequest.Answer asked}, Settles asked → P s t →
      P s (⟨asked, answer⟩ :: t))
    (hphase : ∀ {s t} time, P s t →
      P (Execution.modify (fun record => record.transition next time) s) t) :
    Meets (conduct config True) P (phase next)
      (fun _ s t => P s t ∧ ∃ published earlier,
        t = published :: ⟨.save (.phase next) s.record, .ok ()⟩ :: earlier)
      (fun _ _ _ => True) := by
  refine Meets.bind (Q := fun _ => P)
    (Meets.ask (fun _ _ _ => trivial) fun _ _ _ h => hsettle trivial h) fun time => ?_
  refine Meets.bind (Q := fun _ => P) (Meets.update fun _ _ _ h => hphase time h) fun _ => ?_
  refine Meets.bind (Q := fun _ s t => P s t ∧ ∃ earlier,
    t = ⟨.save (.phase next) s.record, .ok ()⟩ :: earlier) ?_ fun _ => ?_
  · refine Meets.bind_read fun u => ?_
    refine Meets.bind (Q := fun outcome s (t : Trace) => P s t ∧ ∃ earlier,
      t = ⟨.save (.phase next) s.record, outcome⟩ :: earlier)
      (Meets.ask (fun _ _ _ => trivial) ?_) fun outcome => ?_
    · intro outcome s t h
      obtain ⟨rfl, h⟩ := h
      exact ⟨hsettle trivial h, t, rfl⟩
    · rcases outcome with error | _
      · exact Meets.throw fun _ _ _ _ => trivial
      · exact Meets.pure fun _ _ _ h => h
  · refine Meets.bind_read_any fun u => ?_
    refine Meets.ask (fun _ _ _ => trivial) ?_
    intro answer s t h
    obtain ⟨hP, earlier, rfl⟩ := h
    exact ⟨hsettle trivial hP, _, earlier, rfl⟩

theorem closes_of_reconciles {dnpName : DnpName} {plan : TargetRecoveryPlan}
    (h : Reconciles dnpName plan asked) : Closes asked := by
  cases asked with
  | pm call => cases call <;> first | exact h.elim | trivial
  | listPackagesWithin remaining => trivial
  | instant => trivial
  | sleep duration => trivial
  | _ => exact h.elim

/-- A reconciliation begins with a removal of the target. -/
theorem reconcileTarget_removes (dnpName : DnpName) (plan : TargetRecoveryPlan)
    (initialPackages : List PackageSummary) (timeout : Duration) :
    ∃ deleteVolumes next, reconcileTarget dnpName plan initialPackages timeout =
      .request (.pm (.removePackage dnpName deleteVolumes)) next := by
  cases plan <;> exact ⟨_, _, rfl⟩

/-- What survives each exchange of a reconciliation as long as the inventory stays the same holds all
the time: the target is removed first, and from then on no inventory counts. -/
theorem reconcileTarget_safe {guard : Trace → RunnerRequest → Prop} {P : Trace → Prop}
    {dnpName : DnpName} {plan : TargetRecoveryPlan} {initialPackages : List PackageSummary}
    {timeout : Duration} (h : P t)
    (hguard : ∀ asked after, Reconciles dnpName plan asked → P after → guard after asked)
    (hmore : ∀ asked answer after, Reconciles dnpName plan asked → P after →
      (Trace.watch (⟨asked, answer⟩ :: after)).inventory = after.watch.inventory →
      P (⟨asked, answer⟩ :: after)) :
    Safe (recorded guard) (fun outcome after => outcome.1.Settled ∧ P after)
      (reconcileTarget dnpName plan initialPackages timeout) t := by
  obtain ⟨deleteVolumes, next, hfirst⟩ :=
    reconcileTarget_removes dnpName plan initialPackages timeout
  have hwithin : Within (Reconciles dnpName plan) (fun c => c.1.Settled)
      (reconcileTarget dnpName plan initialPackages timeout) := reconcileTarget_within
  rw [hfirst] at hwithin ⊢
  have hremoves : Reconciles dnpName plan (.pm (.removePackage dnpName deleteVolumes)) :=
    hwithin.obeys.2.1 _ _ rfl
  refine Safe.exchange (hguard _ t hremoves h) fun answer => ?_
  have hrest : Within (Reconciles dnpName plan) (fun c => c.1.Settled) (next answer) :=
    hwithin.reaches (.single (.answer trivial))
  have hremoved :
      Watch.observe (Trace.watch t) (.pm (.removePackage dnpName deleteVolumes)) answer =
        { Trace.watch t with mutated := true } :=
    Watch.observe_of_mutates rfl
  let Going : Trace → Prop := fun after => P after ∧ after.watch.mutated = true
  refine (hrest.safe Going trivial ?_ ?_ ?_ ?_).mono fun _ _ _ hend => ⟨hend.2, hend.1.1⟩
  · have hinventory := congrArg Watch.inventory hremoved
    have hmutated := congrArg Watch.mutated hremoved
    exact ⟨hmore _ answer t hremoves h hinventory, hmutated⟩
  · exact fun asked after hreconciles _ hgoing => hguard asked after hreconciles hgoing.1
  · intro asked after answer' later hreconciles _ hgoing hanswer
    cases hanswer
    obtain ⟨hafter, hmutated⟩ := hgoing
    have hwatch : Trace.watch (⟨asked, answer'⟩ :: after) = after.watch :=
      Watch.observe_of_reconciles hreconciles hmutated
    refine ⟨hmore asked answer' after hreconciles hafter (congrArg Watch.inventory hwatch), ?_⟩
    rw [hwatch]
    exact hmutated
  · exact fun _ _ _ _ _ _ hdrift => hdrift.elim

/-- Reconciling a cleared target. -/
theorem reconcileTarget_conducted {dnpName : DnpName} {plan : TargetRecoveryPlan}
    {initialPackages : List PackageSummary} {timeout : Duration}
    (hcleared : t.Cleared config dnpName) :
    Safe (conduct config True)
      (fun outcome after => outcome.1.Settled ∧ Tail t after ∧
        ∀ record, after.Saved .cleanup record → t.Saved .cleanup record)
      (reconcileTarget dnpName plan initialPackages timeout) t := by
  let Going : Trace → Prop := fun after => after.Cleared config dnpName ∧ Tail t after ∧
    ∀ record, after.Saved .cleanup record → t.Saved .cleanup record
  have hgoing : Going t := ⟨hcleared, Tail.refl, fun _ h => h⟩
  refine (reconcileTarget_safe hgoing ?_ ?_).mono fun _ _ _ hend => ⟨hend.1, hend.2.2⟩
  · intro request after hreconciles hgoing
    cases request with
    | pm call =>
        refine ⟨fun target hmutates => ?_, fun hupdates => ?_⟩
        · obtain ⟨rfl, _⟩ := hreconciles.mutates hmutates
          exact hgoing.1
        · cases call with
          | updatePackage updated version => exact hreconciles.elim
          | _ => exact hupdates.elim
    | analyze input => trivial
    | enter point => exact hreconciles.elim
    | _ => trivial
  · intro request answer after hreconciles hgoing hinventory
    obtain ⟨hclears, htail, hsaved⟩ := hgoing
    refine ⟨hclears.more hinventory, htail.more (closes_of_reconciles hreconciles), ?_⟩
    intro record hrecord
    rcases List.mem_cons.mp hrecord with heq | hearlier
    · cases heq
      exact hreconciles.elim
    · exact hsaved record hearlier

/-- The cleanup, for a record that the algorithm has left. -/
theorem cleanUp_conducted :
    Meets (conduct config True) (Closing config request result ended part) (cleanUp config)
      (fun _ s t => Cleaned result ended part s.record t) (fun _ _ _ => True) := by
  refine Meets.bind_read fun u => ?_
  split
  · next hauthorized =>
      refine Meets.bind (Q := fun _ s t => Closing config request result ended part s t ∧
        s.cleanupAuthorized = true) ?_ fun _ => ?_
      · refine (closePhase_meets (P := fun s t => Closing config request result ended part s t ∧
          s.cleanupAuthorized = true) .cleanup (fun hsettles h => ⟨h.1.settle hsettles, h.2⟩)
          ?_).weaken ?_ (fun _ _ _ _ h => h.1) fun _ _ _ _ h => h
        · exact fun time h => ⟨{ h.1 with job := h.1.job, authorized := h.1.authorized }, h.2⟩
        · intro s t _ hpre
          obtain ⟨rfl, h⟩ := hpre
          exact ⟨h, hauthorized⟩
      refine Meets.bind_read fun v => ?_
      -- what is reported is what is stored, and the save tells it
      let Reported : CleanupResult → Execution → Trace → Prop := fun cleanup s t =>
        Tail part t ∧ Keeps result ended.record s.record ∧ ended.cleanupAuthorized = true ∧
          (∀ record, ¬ t.Saved .cleanup record) ∧ cleanup.Settled
      refine Meets.bind (Q := fun outcome => Reported outcome.1) (Meets.run ?_) fun outcome => ?_
      · intro s t _ hpre
        obtain ⟨rfl, h, hauthorized⟩ := hpre
        have hcleared : t.Cleared config v.record.request.package.dnpName := by
          rw [h.requested]
          exact h.cleared hauthorized
        refine (reconcileTarget_conducted hcleared).mono fun outcome after _ hpost => ?_
        obtain ⟨hsettled, htail, hsaved⟩ := hpost
        exact ⟨h.toTail.trans htail, h.toKeeps, h.authorized.symm.trans hauthorized,
          fun record hrecord => h.uncleaned record (hsaved record hrecord), hsettled⟩
      refine Meets.bind (Q := fun _ s t => Reported s.record.cleanup s t) (Meets.update ?_)
        fun _ => Meets.bind_read fun w => ?_
      · intro s t _ h
        obtain ⟨htail, hkeeps, hrest⟩ := h
        exact ⟨htail, { hkeeps with job := hkeeps.job }, hrest⟩
      refine Meets.bind (Q := byOutcome (fun _ s t => Cleaned result ended part s.record t)
        fun _ _ _ => True) (Meets.ask (fun _ _ _ => trivial) ?_) fun answer => ?_
      · intro answer s t hpre
        obtain ⟨rfl, htail, hkeeps, hauthorized, hnone, hsettled⟩ := hpre
        rcases answer with error | _
        · trivial
        · have hreported : ∀ record,
              Trace.Saved (⟨.save .cleanup w.record, .ok ()⟩ :: t) .cleanup record →
                record.cleanup = w.record.cleanup := by
            intro record hrecord
            rcases List.mem_cons.mp hrecord with heq | hearlier
            · cases heq
              rfl
            · exact absurd hearlier (hnone record)
          exact ⟨htail.more trivial, hkeeps, hreported,
            Or.inl ⟨hauthorized, ⟨w.record, List.mem_cons_self ..⟩, hsettled⟩⟩
      · rcases answer with error | _
        · exact Meets.throw fun _ _ _ _ => trivial
        · exact Meets.pure fun _ _ _ h => h
  · next hunauthorized =>
      refine Meets.update ?_
      intro s t _ hpre
      obtain ⟨rfl, h⟩ := hpre
      exact {
        toTail := h.toTail
        toKeeps := { h.toKeeps with job := h.job }
        reported := fun record hrecord => absurd hrecord (h.uncleaned record)
        outcome := Or.inr ⟨h.authorized.symm.trans (by simpa using hunauthorized), rfl,
          h.uncleaned⟩ }

end Tail

/-! ## The result -/

section Result

variable {ext : Externals} {record : RunRecord} {failure : Option Failure} {finished : Timestamp}

def failureOf : Except Failure Unit → Option Failure
  | .ok _ => none
  | .error failure => some failure

/-- What the algorithm decides, before anything is laid over it. -/
def decided (failure : Option Failure) (record : RunRecord) : Verdict × ReasonCode × String :=
  match failure with
  | some failure => (failure.verdict, failure.reason, failure.summary)
  | none =>
      deterministicVerdict
        (record.evidence.comparison.getD (comparisonFromPartial record.evidence))
        (record.evidence.logAnalysis.getD inconclusiveAnalysis)

/-- What is left of it when both overlays have been laid over it. -/
def overlaid (failure : Option Failure) (record : RunRecord) : Verdict × ReasonCode × String :=
  signatureOverlay (noteCleanupFailure record) (cleanupOverlay record (decided failure record))

theorem noteCleanupFailure_evidence : (noteCleanupFailure record).evidence = record.evidence := by
  unfold noteCleanupFailure
  split <;> rfl

theorem noteCleanupFailure_cleanup : (noteCleanupFailure record).cleanup = record.cleanup := by
  unfold noteCleanupFailure
  split <;> rfl

theorem noteCleanupFailure_of_fine (h : cleanupFailed record = false) :
    noteCleanupFailure record = record := by
  simp [noteCleanupFailure, h]

/-- The failure of a cleanup is no note of a bypassed signature. -/
theorem noteCleanupFailure_notesBypass :
    NotesBypass (noteCleanupFailure record).errors ↔ NotesBypass record.errors := by
  unfold noteCleanupFailure NotesBypass
  split
  · simp [pushError]
  · exact Iff.rfl

/-- What the conclusion changes of the record. -/
theorem conclude_eq : conclude ext failure finished record =
    { noteCleanupFailure record with
      status := .completed
      finishedAt := some finished
      result := (conclude ext failure finished record).result } :=
  rfl

theorem conclude_evidence : (conclude ext failure finished record).evidence = record.evidence :=
  noteCleanupFailure_evidence

theorem conclude_result :
    ∃ result, (conclude ext failure finished record).result = some result ∧
      result.verdict = (overlaid failure record).1 ∧
      result.reasonCode = (overlaid failure record).2.1 ∧
      result.errors = (noteCleanupFailure record).errors ∧ result.cleanup = record.cleanup :=
  ⟨_, rfl, by cases failure <;> rfl, by cases failure <;> rfl, rfl, noteCleanupFailure_cleanup⟩

/-- The overlays change only a verdict that passed, and then to a warning at most. -/
theorem overlaid_of_not_passed (h : (decided failure record).1 ≠ .passed) :
    (overlaid failure record).1 = (decided failure record).1 ∧
      (overlaid failure record).2.1 = (decided failure record).2.1 := by
  have hcleanup : cleanupOverlay record (decided failure record) = decided failure record := by
    simp [cleanupOverlay, h]
  unfold overlaid signatureOverlay
  rw [hcleanup]
  split
  · split
    · next hpassed => exact absurd hpassed h
    · next hwarning => exact ⟨hwarning.symm, rfl⟩
    all_goals exact ⟨rfl, rfl⟩
  · exact ⟨rfl, rfl⟩

/-- A verdict that passed is left alone or turned into a warning. -/
theorem overlaid_of_passed (h : (decided failure record).1 = .passed) :
    (overlaid failure record).1 = .passed ∨ (overlaid failure record).1 = .warning := by
  have hcleanup : (cleanupOverlay record (decided failure record)).1 = .passed ∨
      (cleanupOverlay record (decided failure record)).1 = .warning := by
    unfold cleanupOverlay
    split
    · exact Or.inr rfl
    · exact Or.inl h
  unfold overlaid signatureOverlay
  split
  · rcases hcleanup with hpassed | hwarning
    · simp [hpassed]
    · simp [hwarning]
  · exact hcleanup

theorem overlaid_failed_iff :
    (overlaid failure record).1 = .failed ↔ (decided failure record).1 = .failed := by
  by_cases hpassed : (decided failure record).1 = .passed
  · rcases overlaid_of_passed hpassed with hlaid | hlaid <;> simp [hpassed, hlaid]
  · rw [(overlaid_of_not_passed hpassed).1]

theorem signatureOverlay_passed_iff {decided : Verdict × ReasonCode × String} :
    (signatureOverlay record decided).1 = .passed ↔
      decided.1 = .passed ∧ ¬ NotesBypass record.errors := by
  unfold signatureOverlay NotesBypass
  split
  · next hnoted => split <;> simp_all
  · next hnoted => simp [hnoted]

theorem cleanupOverlay_passed_iff {decided : Verdict × ReasonCode × String} :
    (cleanupOverlay record decided).1 = .passed ↔
      decided.1 = .passed ∧ cleanupFailed record = false := by
  unfold cleanupOverlay
  cases cleanupFailed record with
  | false => simp
  | true => by_cases hpassed : decided.1 = .passed <;> simp [hpassed]

theorem overlaid_passed_iff :
    (overlaid failure record).1 = .passed ↔
      (decided failure record).1 = .passed ∧ cleanupFailed record = false ∧
        ¬ NotesBypass record.errors := by
  unfold overlaid
  rw [signatureOverlay_passed_iff, cleanupOverlay_passed_iff, noteCleanupFailure_notesBypass,
    and_assoc]

end Result

/-! ## The whole execution -/

/-- An execution that has returned `Ok`: how its algorithm ended, what the cleanup left of the
record, and what was persisted. -/
structure Concluded (ext : Externals) (config : RunnerConfig) (request : RunRequest)
    (result : Except Failure Unit) (ended : Execution) (part : Trace) (cleaned final : RunRecord)
    (t : Trace) : Prop where
  algorithm : AlgorithmEnds ext config t result ended part
  outcome : byOutcome (fun _ => Analyzed config request) (Early config request) result ended part
  cleanup : Cleaned result ended part cleaned t
  evidence : final.evidence = cleaned.evidence
  settled : final.cleanup = cleaned.cleanup
  conclusion : ∃ finished,
    final.result = (conclude ext (failureOf result) finished cleaned).result
  persisted : t.Persisted final

section Whole

variable {ext : Externals} {config : RunnerConfig} {runId : RunId} {record : RunRecord}

theorem opening_untested (hfresh : record.Fresh) (started : Timestamp) :
    Untested record.request { record := record.start started }
      (opening runId record started) where
  requested := rfl
  unauthorized := rfl
  baseline := congrArg RunEvidence.baseline hfresh.evidence
  candidate := congrArg RunEvidence.candidate hfresh.evidence
  uncompared := congrArg RunEvidence.comparison hfresh.evidence
  errors := hfresh.errors
  notStarted := by simp [opening, Transcript.Mentions, RunnerRequest.starts]
  notUpdated := by simp [opening, Transcript.Mentions, RunnerRequest.updates]
  notBypassed := by simp [opening, Transcript.Mentions, RunnerRequest.bypasses]
  unanalyzed := by simp [opening, Trace.Saved]
  uncleaned := by simp [opening, Trace.Saved]

theorem Early.grounds_or {request : RunRequest} {result : Except Failure Unit} {s : Execution}
    {t : Trace}
    (h : byOutcome (fun _ => Analyzed config request) (Early config request) result s t) :
    Grounds config request s t := by
  rcases result with failure | _
  · exact Early.toGrounds h
  · exact Analyzed.toGrounds h

/-- The tail takes up where the algorithm has ended. -/
theorem noteFailure_conducted {request : RunRequest} {result : Except Failure Unit}
    {ended : Execution} {part : Trace} (hgrounds : Grounds config request ended part) :
    Meets (conduct config True) (fun s t => s = ended ∧ t = part) (noteFailure result)
      (fun failure s t => failure = failureOf result ∧
        Closing config request result ended part s t) (fun _ _ _ => True) := by
  have hclosing : ∀ errors, (result = .ok () → errors = ended.record.errors) →
      Closing config request result ended part
        (Execution.modify (fun record => { record with errors := errors }) ended) part :=
    fun errors herrors =>
      { grown := List.suffix_refl _, closing := fun _ => Or.inl, job := rfl, baseline := rfl,
        candidate := rfl, comparison := rfl, logAnalysis := rfl, errors := herrors,
        authorized := rfl, requested := hgrounds.requested, cleared := hgrounds.cleared,
        uncleaned := hgrounds.uncleaned }
  rcases result with failure | _
  · refine Meets.bind (Q := fun _ => Closing config request (.error failure) ended part)
      (Meets.update ?_) fun _ => Meets.pure fun _ _ _ h => ⟨rfl, h⟩
    intro s t _ hpre
    obtain ⟨rfl, rfl⟩ := hpre
    exact hclosing _ nofun
  · refine Meets.pure ?_
    intro s t _ hpre
    obtain ⟨rfl, rfl⟩ := hpre
    exact ⟨rfl, hclosing _ fun _ => rfl⟩

/-- The record is the conclusion of what the cleanup left. -/
structure Closed (ext : Externals) (result : Except Failure Unit) (ended : Execution)
    (part : Trace) (cleaned : RunRecord) (s : Execution) (t : Trace) : Prop where
  cleanup : Cleaned result ended part cleaned t
  evidence : s.record.evidence = cleaned.evidence
  settled : s.record.cleanup = cleaned.cleanup
  conclusion : ∃ finished,
    s.record.result = (conclude ext (failureOf result) finished cleaned).result

/-- Everything that `execute` does once the algorithm has ended. -/
theorem tail_conducted {request : RunRequest} {result : Except Failure Unit} {ended : Execution}
    {part : Trace} (hgrounds : Grounds config request ended part) :
    Meets (conduct config True) (fun s t => s = ended ∧ t = part)
      (do
        let failure ← noteFailure result
        cleanUp config
        let finished ← .run now
        .update (Execution.modify (conclude ext failure finished))
        phase .finished)
      (fun _ s t => ∃ cleaned, Closed ext result ended part cleaned s t ∧ t.Persisted s.record)
      (fun _ _ _ => True) := by
  refine Meets.bind (noteFailure_conducted hgrounds) fun failure => ?_
  refine Meets.given fun hfailure => ?_
  subst hfailure
  refine Meets.bind cleanUp_conducted fun _ => ?_
  refine Meets.bind (Q := fun _ s t => Cleaned result ended part s.record t)
    (Meets.ask (fun _ _ _ => trivial) fun _ _ _ h => h.settle (show Settles .now from trivial))
    fun finished => ?_
  refine Meets.bind (Q := fun _ s t => ∃ cleaned, Closed ext result ended part cleaned s t)
    (Meets.update ?_) fun _ => ?_
  · intro s t _ h
    exact ⟨s.record, h, conclude_evidence, noteCleanupFailure_cleanup, finished, rfl⟩
  · refine (closePhase_meets .finished ?_ ?_).weaken (fun _ _ _ h => h) ?_ fun _ _ _ _ h => h
    · rintro s t asked answer hsettles ⟨cleaned, h⟩
      exact ⟨cleaned, { h with cleanup := h.cleanup.settle hsettles }⟩
    · rintro s t time ⟨cleaned, h⟩
      exact ⟨cleaned, { h with evidence := h.evidence }⟩
    · rintro _ s t _ ⟨⟨cleaned, h⟩, published, earlier, heq⟩
      exact ⟨cleaned, h, published, earlier, heq⟩

/-- The local state and the whole conversation are known. -/
def Known (record : RunRecord) (known : Trace) (s : Execution) (t : Trace) : Prop :=
  s = { record := record } ∧ t = known

section Beginning

variable {comparing : Prop} {started : Timestamp} {known : Trace}

theorem now_begins :
    Meets (conduct config comparing) (Known record known) (.run now : Driver Timestamp)
      (fun started => Known record (⟨.now, started⟩ :: known)) (fun _ _ _ => True) := by
  refine Meets.ask (fun _ _ _ => trivial) ?_
  rintro started s t ⟨rfl, rfl⟩
  exact ⟨rfl, rfl⟩

theorem start_begins :
    Meets (conduct config comparing) (Known record known)
      (.update (Execution.modify fun record => record.start started) : Driver Unit)
      (fun _ => Known (record.start started) known) (fun _ _ _ => True) := by
  refine Meets.update ?_
  rintro s t _ ⟨rfl, rfl⟩
  exact ⟨rfl, rfl⟩

theorem save_begins :
    Meets (conduct config comparing) (Known record known) (saveRecord .started)
      (fun _ => Known record (⟨.save .started record, .ok ()⟩ :: known)) (fun _ _ _ => True) := by
  refine Meets.bind_read fun u => ?_
  refine Meets.bind (Q := fun answer => Known record (⟨.save .started record, answer⟩ :: known))
    (Meets.ask (fun _ _ _ => trivial) ?_) fun answer => ?_
  · rintro answer s t ⟨rfl, rfl, rfl⟩
    exact ⟨rfl, rfl⟩
  · rcases answer with error | _
    · exact Meets.throw fun _ _ _ _ => trivial
    · exact Meets.pure fun _ _ _ h => h

theorem publish_begins {s : Execution} :
    Meets (conduct config comparing) (fun s' t => s = s' ∧ Known record known s' t)
      (.run (publish s.record.phase s.record.worker.cleanupRequired) : Driver Unit)
      (fun _ => Known record (⟨.publish record.phase record.worker.cleanupRequired, ()⟩ :: known))
      (fun _ _ _ => True) := by
  refine Meets.ask (fun _ _ _ => trivial) ?_
  rintro _ s t ⟨rfl, rfl, rfl⟩
  exact ⟨rfl, rfl⟩

end Beginning

theorem drive_conducted (hfresh : record.Fresh) :
    Meets (conduct config True) (Known record [⟨.get runId, .ok (some record)⟩]) (drive ext config)
      (fun _ s t => ∃ result ended part cleaned,
        Concluded ext config record.request result ended part cleaned s.record t)
      (fun _ _ _ => True) := by
  refine Meets.bind now_begins fun started => ?_
  refine Meets.bind start_begins fun _ => ?_
  refine Meets.bind save_begins fun _ => ?_
  refine Meets.bind_read fun u => ?_
  refine Meets.bind publish_begins fun _ => ?_
  -- the algorithm, with the run that leads to its end
  refine Meets.bind (Q := fun result ended part => AlgorithmEnds ext config part result ended part ∧
    byOutcome (fun _ => Analyzed config record.request) (Early config record.request) result ended
      part) ?_ fun result => ?_
  · rintro s t hinv ⟨rfl, rfl⟩
    refine (runAlgorithm_meets trivial _ _ hinv (opening_untested hfresh started)).trail.bind ?_
    rintro ⟨result, ended⟩ part _ ⟨hends, hrun⟩
    refine Safe.pure trivial ⟨⟨List.suffix_refl _, runId, record, started, hrun⟩, ?_⟩
    rcases result with failure | _
    · exact hends
    · exact hends
  intro ended part hinv hpre
  obtain ⟨halgorithm, houtcome⟩ := hpre
  refine (tail_conducted (Early.grounds_or houtcome) ended part hinv ⟨rfl, rfl⟩).mono ?_
  rintro ⟨outcome, s⟩ t _ hends
  rcases outcome with error | _
  · trivial
  · obtain ⟨cleaned, hclosed, hpersisted⟩ := hends
    exact ⟨result, ended, part, cleaned, {
      algorithm := { halgorithm with within := hclosed.cleanup.grown }
      outcome := houtcome
      cleanup := hclosed.cleanup
      evidence := hclosed.evidence
      settled := hclosed.settled
      conclusion := hclosed.conclusion
      persisted := hpersisted }⟩

/-- An execution of a fresh record drives it. -/
theorem executes_driven {outcome : Except ControllerError Unit} {t : Trace}
    (h : Executes ext config runId record outcome t) :
    ∃ s, Reaches recording
      (drive ext config { record := record }, [⟨.get runId, .ok (some record)⟩])
      (.pure (outcome, s), t) := by
  obtain ⟨answer, hrest⟩ := Reaches.of_request h.returned
  -- the answer is the one that the conversation begins with
  have hanswer : (⟨.get runId, answer⟩ :: [] : Trace) = [⟨.get runId, .ok (some record)⟩] :=
    (List.suffix_of_suffix_length_le hrest.suffix h.found (by simp)).eq_of_length (by simp)
  cases hanswer
  have hrest : Reaches recording
      (if record.status ≠ .queued then Program.pure (.ok ()) else
        (drive ext config { record := record }).bind fun c => Program.pure c.1,
        [⟨.get runId, .ok (some record)⟩]) (.pure outcome, t) := hrest
  rw [if_neg (by simp [h.fresh.queued])] at hrest
  obtain ⟨⟨outcome, s⟩, t', hdrive, hreturn⟩ := Reaches.of_bind_pure hrest
  cases hreturn.of_pure
  exact ⟨s, hdrive⟩

/-- What an execution that has returned `Ok` comes to. -/
theorem executes_concluded {t : Trace} (h : Executes ext config runId record (.ok ()) t) :
    ∃ result ended part cleaned final,
      Concluded ext config record.request result ended part cleaned final t := by
  obtain ⟨s, hdrive⟩ := executes_driven h
  obtain ⟨result, ended, part, cleaned, hconcluded⟩ :=
    (drive_conducted h.fresh _ _ trivial ⟨rfl, rfl⟩).ends hdrive
  exact ⟨result, ended, part, cleaned, s.record, hconcluded⟩

/-! ## What the conversation says about the result -/

variable {request : RunRequest} {ended : Execution} {part t : Trace} {cleaned final : RunRecord}

/-- After the end of the algorithm, the verdict comes from the two captures and the analysis. -/
theorem Analyzed.decided (h : Analyzed config request ended part)
    (hkeeps : Keeps (.ok ()) ended.record cleaned) :
    ∃ baseline candidate analysis, cleaned.evidence.baseline = some baseline ∧
      cleaned.evidence.candidate = some candidate ∧
      cleaned.evidence.logAnalysis = some analysis ∧
      decided none cleaned = deterministicVerdict (compare baseline candidate) analysis := by
  obtain ⟨baseline, candidate, hbaseline, hcandidate, hcomparison⟩ := h.compared
  obtain ⟨analysis, hanalysis⟩ := Option.isSome_iff_exists.mp h.analysis
  refine ⟨baseline, candidate, analysis, hkeeps.baseline.trans hbaseline,
    hkeeps.candidate.trans hcandidate, hkeeps.logAnalysis.trans hanalysis, ?_⟩
  simp [Conduct.decided, hkeeps.comparison, hcomparison, hkeeps.logAnalysis, hanalysis]

/-- The errors note a bypassed signature exactly if it was bypassed. -/
theorem Analyzed.notesBypass_iff (h : Analyzed config request ended part) :
    NotesBypass ended.record.errors ↔ part.Mentions RunnerRequest.bypasses := by
  refine ⟨fun hnoted => ?_, h.bypassed⟩
  by_contra hunbypassed
  rw [h.unbypassed hunbypassed] at hnoted
  cases hnoted

theorem not_closes_of_bypasses (asked : RunnerRequest) (h : asked.bypasses) : ¬ Closes asked := by
  cases asked with
  | pm call =>
      cases call with
      | installPackageBypassingSignature dnpName version => exact id
      | _ => exact h.elim
  | _ => exact h.elim

/-- An authorized cleanup that has not failed has been saved as passed. -/
theorem Cleaned.passed_iff {result : Except Failure Unit}
    (h : Cleaned result ended part cleaned t) (hauthorized : ended.cleanupAuthorized = true) :
    cleanupFailed cleaned = false ↔
      ∃ saved, t.Saved .cleanup saved ∧ saved.cleanup.status = .passed := by
  rcases h.outcome with ⟨_, ⟨saved, hsaved⟩, hsettled⟩ | ⟨hunauthorized, _⟩
  · have hreported := h.reported saved hsaved
    constructor
    · intro hfine
      refine ⟨saved, hsaved, ?_⟩
      rw [hreported]
      rcases hsettled.definite with hpassed | hfailed | htimedOut
      · exact hpassed
      · simp [cleanupFailed, hfailed] at hfine
      · simp [cleanupFailed, htimedOut] at hfine
    · rintro ⟨saved', hsaved', hpassed⟩
      rw [h.reported saved' hsaved'] at hpassed
      simp [cleanupFailed, hpassed]
  · rw [hauthorized] at hunauthorized
    cases hunauthorized

end Whole

end Conduct

end PackageHarness
