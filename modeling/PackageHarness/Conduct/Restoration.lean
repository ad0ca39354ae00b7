/-
# PackageHarness.Conduct.Restoration — how an execution leaves its target.

Where the algorithm has been allowed to change the target, the tail reconciles it once, by the plan
and the inventory of a record that it has just saved, and calls the package manager no more. Every
exit of an execution is covered: what the store may hold then asks for a cleanup if anything was
changed, and calls it passed only if the reconciliation did.
-/
import PackageHarness.Conduct.Custody

namespace PackageHarness

open Interaction Routine

namespace RunnerRequest

/-- Requests that reach the package manager. -/
def calls : RunnerRequest → Prop
  | pm _ | listPackagesWithin _ => True
  | _ => False

/-- Requests of the tail that say nothing about the store or the target. -/
def reports : RunnerRequest → Prop
  | now | publish _ _ => True
  | _ => False

theorem reports.plain {asked : RunnerRequest} (h : asked.reports) : asked.plain := by
  cases asked with
  | now => trivial
  | publish phase required => trivial
  | _ => exact h.elim

end RunnerRequest

/-- Between `before` and `after` the target was reconciled, by the plan and the inventory of a
record that was durable at that time. -/
structure Restored (config : RunnerConfig) (saved : RunRecord) (cleanup : CleanupResult)
    (before after t : Trace) : Prop where
  /-- The cleanup had not been begun before. -/
  opened : ∃ required, ∃ earlier : Trace, before = ⟨.publish .cleanup required, ()⟩ ::
    ⟨.save (.phase .cleanup) saved, .ok ()⟩ :: earlier ∧ earlier.Uncleaned
  required : saved.worker.cleanupRequired = true
  heeded : before.Heeded
  ran : ∃ packages, Reaches recording
    (Runner.reconcileTarget saved.request.resolve.dnpName saved.worker.targetRecovery
      saved.evidence.initialPackages config.cleanupTimeout, before) (.pure (cleanup, packages), after)
  /-- The package manager was not called again. -/
  ended : ∃ later, t = later ++ after ∧ ∀ x ∈ later, ¬ x.request.calls

theorem Restored.more {config : RunnerConfig} {saved : RunRecord} {cleanup : CleanupResult}
    {before after t : Trace} {asked : RunnerRequest} {answer : asked.Answer}
    (h : Restored config saved cleanup before after t) (hcalls : ¬ asked.calls) :
    Restored config saved cleanup before after (⟨asked, answer⟩ :: t) := by
  obtain ⟨later, rfl, hquiet⟩ := h.ended
  refine { h with ended := ⟨⟨asked, answer⟩ :: later, rfl, ?_⟩ }
  intro x hx
  rcases List.mem_cons.mp hx with rfl | hearlier
  · exact hcalls
  · exact hquiet x hearlier

namespace Conduct

open Runner

/-! ## What holds in the tail -/

section Assertions

variable (config : RunnerConfig) (came : Prop)

/-- The target has not been reconciled. -/
structure Untended (s : Execution) (t : Trace) : Prop extends Custody s t where
  heeded : t.Heeded
  unheld : ∀ held, t.MayHold held → held.cleanup.status = .passed → came

/-- The cleanup has begun. -/
structure Opening (s : Execution) (t : Trace) : Prop extends Untended came s t where
  authorized : s.cleanupAuthorized = true
  armed : t.Guarded
  opened : ∃ required, ∃ earlier : Trace, t = ⟨.publish .cleanup required, ()⟩ ::
    ⟨.save (.phase .cleanup) s.record, .ok ()⟩ :: earlier ∧ earlier.Uncleaned

/-- The target has been reconciled, and the record says with what result. -/
structure Tended (s : Execution) (t : Trace) : Prop extends Custody s t where
  authorized : s.cleanupAuthorized = true
  armed : t.Guarded
  restored : ∃ saved before after, Restored config saved s.record.cleanup before after t
  unheld : ∀ held, t.MayHold held → held.cleanup.status = .passed →
    s.record.cleanup.status = .passed ∨ came

/-- There was nothing to reconcile. -/
structure Spared (s : Execution) (t : Trace) : Prop extends Untended came s t where
  unauthorized : s.cleanupAuthorized = false
  skipped : s.record.cleanup = ⟨.skipped, [], none⟩

/-- The cleanup is over. -/
def Tailed (s : Execution) (t : Trace) : Prop := Tended config came s t ∨ Spared came s t

/-- The execution has given up. -/
def GivenUp (s : Execution) (t : Trace) : Prop := Untended came s t ∨ Tailed config came s t

end Assertions

/-- The record tells of its cleanup and its bypasses. -/
def Reported (s : Execution) (t : Trace) : Prop :=
  (∃ result, s.record.result = some result ∧ result.cleanup = s.record.cleanup) ∧
    t.Disclosed s.record

section Steps

variable {config : RunnerConfig} {came : Prop} {s : Execution} {t : Trace}
  {asked : RunnerRequest} {answer : asked.Answer} {f : RunRecord → RunRecord}

theorem Testing.untended (h : Testing came s t) : Untended came s t :=
  { h.toCustody with heeded := h.heeded, unheld := h.unheld }

theorem reports_stores (h : asked.reports) : ¬ asked.stores := h.plain.not_stores

theorem Custody.report (h : Custody s t) (hreports : asked.reports) :
    Custody s (⟨asked, answer⟩ :: t) :=
  h.hear (reports_stores hreports)
    ((Trace.notes_cons fun hbypass => hreports.plain.not_changes hbypass.changes).mpr h.noted)
    fun hchange => absurd hchange hreports.plain.not_changes

theorem Untended.report (h : Untended came s t) (hreports : asked.reports) :
    Untended came s (⟨asked, answer⟩ :: t) where
  toCustody := h.toCustody.report hreports
  heeded := h.heeded.cons fun hchange => absurd hchange hreports.plain.not_changes
  unheld := fun held hheld =>
    h.unheld held ((Trace.mayHold_cons (reports_stores hreports)).mp hheld)

theorem Tended.report (h : Tended config came s t) (hreports : asked.reports) :
    Tended config came s (⟨asked, answer⟩ :: t) where
  toCustody := h.toCustody.report hreports
  authorized := h.authorized
  armed := (Trace.guarded_cons (reports_stores hreports)).mpr h.armed
  restored := by
    obtain ⟨saved, before, after, hrestored⟩ := h.restored
    refine ⟨saved, before, after, hrestored.more ?_⟩
    cases asked with
    | pm call => exact hreports.elim
    | listPackagesWithin remaining => exact hreports.elim
    | _ => exact id
  unheld := fun held hheld =>
    h.unheld held ((Trace.mayHold_cons (reports_stores hreports)).mp hheld)

theorem Tailed.report (h : Tailed config came s t) (hreports : asked.reports) :
    Tailed config came s (⟨asked, answer⟩ :: t) := by
  rcases h with h | h
  · exact Or.inl (h.report hreports)
  · exact Or.inr { h with toUntended := h.toUntended.report hreports }

theorem Tended.save (h : Tended config came s t) {site : SaveSite}
    {answer : Except StoreError Unit} :
    Tended config came s (⟨.save site s.record, answer⟩ :: t) where
  toCustody := h.toCustody.save
  authorized := h.authorized
  armed := h.armed.save (h.required h.authorized)
  restored := by
    obtain ⟨saved, before, after, hrestored⟩ := h.restored
    exact ⟨saved, before, after, hrestored.more id⟩
  unheld := by
    intro held hheld hpassed
    rcases Trace.mayHold_save hheld with rfl | hearlier
    · exact Or.inl hpassed
    · exact h.unheld held hearlier hpassed

theorem Spared.save (h : Spared came s t) {site : SaveSite} {answer : Except StoreError Unit} :
    Spared came s (⟨.save site s.record, answer⟩ :: t) where
  toCustody := h.toCustody.save
  heeded := h.heeded.cons False.elim
  unheld := by
    intro held hheld hpassed
    rcases Trace.mayHold_save hheld with rfl | hearlier
    · rw [h.skipped] at hpassed
      cases hpassed
    · exact h.unheld held hearlier hpassed
  unauthorized := h.unauthorized
  skipped := h.skipped

theorem Tailed.save (h : Tailed config came s t) {site : SaveSite}
    {answer : Except StoreError Unit} :
    Tailed config came s (⟨.save site s.record, answer⟩ :: t) :=
  h.imp (fun h => h.save) fun h => h.save

theorem Tailed.modify (h : Tailed config came s t) (hf : Harmless f) :
    Tailed config came (Execution.modify f s) t := by
  rcases h with h | h
  · refine Or.inl { h.toCustody.modify hf with
      authorized := h.authorized
      armed := h.armed
      restored := ?_
      unheld := ?_ }
    · obtain ⟨saved, before, after, hrestored⟩ := h.restored
      refine ⟨saved, before, after, ?_⟩
      show Restored config saved (f s.record).cleanup before after t
      rwa [hf.cleanup]
    · intro held hheld hpassed
      show (f s.record).cleanup.status = .passed ∨ came
      rw [hf.cleanup]
      exact h.unheld held hheld hpassed
  · exact Or.inr { h.toCustody.modify hf with
      heeded := h.heeded
      unheld := h.unheld
      unauthorized := h.unauthorized
      skipped := (hf.cleanup _).trans h.skipped }

theorem Tailed.custody (h : Tailed config came s t) : Custody s t := by
  rcases h with h | h
  · exact h.toCustody
  · exact h.toCustody

theorem harmless_conclude (ext : Externals) (failure : Option Failure) (finished : Timestamp) :
    Harmless (conclude ext failure finished) where
  required := by
    intro record
    rw [conclude_eq]
    show (noteCleanupFailure record).worker.cleanupRequired = _
    unfold noteCleanupFailure
    split <;> rfl
  cleanup := fun _ => noteCleanupFailure_cleanup
  errors := by
    intro record error herror
    rw [conclude_eq]
    show error ∈ (noteCleanupFailure record).errors
    unfold noteCleanupFailure
    split
    · exact List.mem_append_left _ herror
    · exact herror

/-- The conclusion reports what the record says, with the overlay for a bypassed signature. -/
theorem Custody.reported (h : Custody s t) (ext : Externals) (failure : Option Failure)
    (finished : Timestamp) : Reported (Execution.modify (conclude ext failure finished) s) t := by
  obtain ⟨result, hresult, hverdict, _, herrors, hcleanup⟩ :=
    @conclude_result ext s.record failure finished
  refine ⟨⟨result, hresult, hcleanup.trans noteCleanupFailure_cleanup.symm⟩, result, hresult,
    herrors, ?_⟩
  intro rejection hbypassed hpassed
  rw [hverdict, overlaid_passed_iff] at hpassed
  refine hpassed.2.2 (List.any_eq_true.mpr ⟨_, h.noted rejection hbypassed, ?_⟩)
  exact beq_iff_eq.mpr rfl

theorem Reported.more (h : Reported s t) (hbypasses : ¬ asked.bypasses) :
    Reported s (⟨asked, answer⟩ :: t) := by
  obtain ⟨hcleanup, result, hresult, herrors, hverdict⟩ := h
  exact ⟨hcleanup, result, hresult, herrors, fun rejection hbypassed =>
    hverdict rejection ((Trace.bypassed_cons hbypasses).mp hbypassed)⟩

end Steps

/-! ## The tail -/

section Tail

variable {ext : Externals} {config : RunnerConfig} {came : Prop}

/-- A phase of the tail, with the save that it ends on. -/
theorem closePhase_custody {P Q G : Execution → Trace → Prop} {next : ExecutionPhase}
    (hreports : ∀ {s t asked} {answer : RunnerRequest.Answer asked}, asked.reports → P s t →
      P s (⟨asked, answer⟩ :: t))
    (hphase : ∀ {s t} time, P s t →
      P (Execution.modify (fun record => record.transition next time) s) t)
    (hwarranted : ∀ s t, P s t → t.Warranted (.save (.phase next) s.record))
    (hok : ∀ {s t required}, P s t →
      Q s (⟨.publish next required, ()⟩ :: ⟨.save (.phase next) s.record, .ok ()⟩ :: t))
    (herror : ∀ error s t, P s t → G s (⟨.save (.phase next) s.record, .error error⟩ :: t)) :
    Meets custody P (phase next) (fun _ => Q) (fun _ => G) := by
  refine Meets.bind (Q := fun _ => P) (Meets.ask (fun _ _ _ => trivial)
    fun _ _ _ h => hreports trivial h) fun time => ?_
  refine Meets.bind (Q := fun _ => P) (Meets.update fun _ _ _ h => hphase time h) fun _ => ?_
  refine Meets.bind (Q := fun _ s t => ∃ earlier,
    t = ⟨.save (.phase next) s.record, .ok ()⟩ :: earlier ∧ P s earlier)
    (saveRecord_custody hwarranted (fun _ t h => ⟨t, rfl, h⟩) herror) fun _ => ?_
  refine Meets.bind_read_any fun u => Meets.ask (fun _ _ _ => trivial) ?_
  rintro _ s t ⟨earlier, rfl, h⟩
  exact hok h

theorem openPhase_custody :
    Meets custody (fun s t => Testing came s t ∧ s.cleanupAuthorized = true) (phase .cleanup)
      (fun _ => Opening came) (fun _ => Untended came) := by
  have hsaved : ∀ {s : Execution} {t : Trace} (answer : Except StoreError Unit),
      Testing came s t → Untended came s (⟨.save (.phase .cleanup) s.record, answer⟩ :: t) := by
    intro s t answer h
    refine { h.toCustody.save with heeded := h.heeded.cons False.elim, unheld := ?_ }
    intro held hheld
    rcases Trace.mayHold_save hheld with rfl | hearlier
    · exact h.unpassed
    · exact h.unheld held hearlier
  refine closePhase_custody ?_ ?_ (fun _ _ h => h.1.warranted (by simp)) ?_
    fun _ _ _ h => hsaved _ h.1
  · intro s t asked answer hreports h
    refine ⟨h.1.hear (reports_stores hreports) (h.1.toCustody.report hreports).noted fun hchange =>
      absurd hchange hreports.plain.not_changes, h.2⟩
  · exact fun time h => ⟨h.1.modify (harmless_transition _ time), h.2⟩
  · intro s t required h
    have hpublish : (RunnerRequest.publish .cleanup required).reports := trivial
    refine { (hsaved (.ok ()) h.1).report hpublish with
      authorized := h.2
      armed := (Trace.guarded_cons id).mpr (Trace.guarded_saved (h.1.required h.2))
      opened := ⟨required, t, rfl, h.1.uncleaned⟩ }

/-- Reconciling the target once its requirement is durable. -/
theorem reconcileTarget_custody {s : Execution} {t : Trace} (h : Opening came s t) :
    Safe custody
      (fun outcome => Tended config came (Execution.modify (setCleanup outcome.1 outcome.2) s))
      (reconcileTarget s.record.request.resolve.dnpName s.record.worker.targetRecovery
        s.record.evidence.initialPackages config.cleanupTimeout) t := by
  let Going : Trace → Prop := fun after => Custody s after ∧ after.Guarded ∧
    ∀ held, after.MayHold held → held.cleanup.status = .passed → came
  have hstores : ∀ {asked}, Reconciles s.record.request.resolve.dnpName
      s.record.worker.targetRecovery asked → ¬ asked.stores ∧ ¬ asked.bypasses := by
    intro asked hreconciles
    cases asked with
    | pm call => cases call <;> first | exact hreconciles.elim | exact ⟨id, id⟩
    | save site record => exact hreconciles.elim
    | get runId => exact hreconciles.elim
    | _ => exact ⟨id, id⟩
  refine (Safe.trail (reconcileTarget_within.safe Going trivial
    ⟨h.toCustody, h.armed, h.unheld⟩ ?_ ?_ ?_)).mono ?_
  · intro asked after hreconciles _ hgoing
    cases asked with
    | pm call => exact warranted_change hgoing.2.1 (hstores hreconciles).2
    | save site record => exact hreconciles.elim
    | _ => trivial
  · intro asked after answer later hreconciles _ hgoing hanswer
    cases hanswer
    obtain ⟨hcustody, hguarded, hunheld⟩ := hgoing
    obtain ⟨hstore, hbypass⟩ := hstores hreconciles
    refine ⟨hcustody.hear hstore ((Trace.notes_cons hbypass).mpr hcustody.noted) fun _ =>
      ⟨h.authorized, hguarded⟩, (Trace.guarded_cons hstore).mpr hguarded, fun held hheld => ?_⟩
    exact hunheld held ((Trace.mayHold_cons hstore).mp hheld)
  · exact fun _ _ _ _ _ _ hdrift => hdrift.elim
  · rintro ⟨cleanup, packages⟩ after _ ⟨⟨⟨hcustody, hguarded, hunheld⟩, _⟩, hran⟩
    refine {
      untouched := hcustody.untouched
      required := hcustody.required
      guarded := hcustody.guarded
      noted := hcustody.noted
      authorized := h.authorized
      armed := hguarded
      restored := ⟨s.record, t, after, ?_⟩
      unheld := fun held hheld hpassed => Or.inr (hunheld held hheld hpassed) }
    exact {
      opened := h.opened
      required := h.required h.authorized
      heeded := h.heeded
      ran := ⟨packages, hran⟩
      ended := ⟨[], rfl, fun _ hx => absurd hx List.not_mem_nil⟩ }

theorem cleanUp_custody :
    Meets custody (Testing came) (cleanUp config) (fun _ => Tailed config came)
      (fun _ => GivenUp config came) := by
  refine Meets.bind_read fun u => ?_
  split
  · next hauthorized =>
      refine Meets.bind (Q := fun _ => Opening came) (openPhase_custody.weaken ?_
        (fun _ _ _ _ h => h) fun _ _ _ _ h => Or.inl h) fun _ => ?_
      · rintro s t _ ⟨rfl, h⟩
        exact ⟨h, hauthorized⟩
      refine Meets.bind_read fun v => ?_
      refine Meets.bind (Q := fun outcome s =>
        Tended config came (Execution.modify (setCleanup outcome.1 outcome.2) s))
        (Meets.run ?_) fun outcome => ?_
      · rintro s t _ ⟨rfl, h⟩
        exact reconcileTarget_custody h
      refine Meets.bind (Q := fun _ => Tended config came) (Meets.update fun _ _ _ h => h)
        fun _ => ?_
      refine (saveRecord_custody (fun _ _ h => h.warranted (by simp)) (fun _ _ h => h.save)
        fun _ _ _ h => h.save).weaken (fun _ _ _ h => h) (fun _ _ _ _ h => Or.inl h)
        fun _ _ _ _ h => Or.inr (Or.inl h)
  · next hunauthorized =>
      refine Meets.update ?_
      rintro s t _ ⟨rfl, h⟩
      exact Or.inr {
        untouched := h.untouched
        required := h.required
        guarded := h.guarded
        noted := h.noted
        heeded := h.heeded
        unheld := h.unheld
        unauthorized := show _ = _ from Bool.eq_false_iff.mpr hunauthorized
        skipped := rfl }

theorem noteFailure_custody {result : Except Failure Unit} :
    Meets custody (Testing came) (noteFailure result) (fun _ => Testing came)
      (fun _ => GivenUp config came) := by
  rcases result with failure | _
  · refine Meets.bind (Q := fun _ => Testing came) (Meets.update fun _ _ _ h => ?_) fun _ =>
      Meets.pure fun _ _ _ h => h
    exact h.modify ⟨fun _ => rfl, fun _ => rfl, fun _ _ hmem => List.mem_append_left _ hmem⟩
  · exact Meets.pure fun _ _ _ h => h

/-- The end of the tail: the result is persisted with the record. -/
theorem finishPhase_custody :
    Meets custody (fun s t => Tailed config came s t ∧ Reported s t) (phase .finished)
      (fun _ s t => Tailed config came s t ∧ Reported s t ∧ t.Persisted s.record)
      (fun _ => GivenUp config came) := by
  refine closePhase_custody ?_ ?_ (fun _ _ h => ⟨h.1.custody.noted, fun _ => h.2.2⟩) ?_
    fun _ _ _ h => Or.inr h.1.save
  · exact fun hreports h => ⟨h.1.report hreports, h.2.more fun hbypass =>
      hreports.plain.not_changes hbypass.changes⟩
  · exact fun time h => ⟨h.1.modify (harmless_transition _ time), h.2⟩
  · intro s t required h
    exact ⟨h.1.save.report trivial, (h.2.more id).more id, _, t, rfl⟩

/-- A whole execution, however it ends. -/
theorem drive_custody :
    Meets custody (Running came) (drive ext config)
      (fun _ s t => Tailed config came s t ∧ Reported s t ∧ t.Persisted s.record)
      (fun _ => GivenUp config came) := by
  refine Meets.bind (hear_custody trivial) fun started => ?_
  refine Meets.bind (modify_custody ⟨fun _ => rfl, fun _ => rfl, fun _ _ h => h⟩) fun _ => ?_
  refine Meets.bind ((saveRunning_custody (by simp)).weaken (fun _ _ _ h => h)
    (fun _ _ _ _ h => h) fun _ _ _ _ h => Or.inl h.toTesting.untended) fun _ => ?_
  refine Meets.bind_read_any fun u => ?_
  refine Meets.bind (hear_custody trivial) fun _ => ?_
  refine Meets.bind (Q := fun _ => Testing came) (Meets.attempt (runAlgorithm_custody.weaken
    (fun _ _ _ h => h) (fun _ _ _ _ h => h.toTesting) fun _ _ _ _ h => h)) fun result => ?_
  refine Meets.bind noteFailure_custody fun failure => ?_
  refine Meets.bind cleanUp_custody fun _ => ?_
  refine Meets.bind (Q := fun _ => Tailed config came) (Meets.ask (fun _ _ _ => trivial)
    fun _ _ _ h => h.report trivial) fun finished => ?_
  refine Meets.bind (Q := fun _ s t => Tailed config came s t ∧ Reported s t) (Meets.update ?_)
    fun _ => finishPhase_custody
  exact fun _ _ _ h => ⟨h.modify (harmless_conclude ..), h.custody.reported ..⟩

/-- An execution that has ended: it found no queued record, or it drove the record that it found. -/
def Ends (config : RunnerConfig) (runId : RunId) (outcome : Except ControllerError Unit)
    (t : Trace) : Prop :=
  (∃ answer, t = [⟨.get runId, answer⟩] ∧
    ∀ record, answer = .ok (some record) → record.status ≠ .queued) ∨
  ∃ record, ⟨.get runId, .ok (some record)⟩ ∈ t ∧ record.status = .queued ∧
    ∃ s, byOutcome (ε := ControllerError)
      (fun _ s t => Tailed config (record.cleanup.status = .passed) s t ∧ Reported s t ∧
        t.Persisted s.record)
      (fun _ => GivenUp config (record.cleanup.status = .passed)) outcome s t

theorem found_running {runId : RunId} {record : RunRecord} :
    Running (record.cleanup.status = .passed) { record := record }
      [⟨.get runId, .ok (some record)⟩] := by
  have huntouched : ¬ Transcript.Mentions ([⟨.get runId, .ok (some record)⟩] : Trace)
      RunnerRequest.changes := by
    rw [Trace.changes_cons id]
    rintro ⟨x, hx, _⟩
    exact List.not_mem_nil hx
  exact {
    untouched := fun _ => huntouched
    required := nofun
    guarded := fun hmentions => absurd hmentions huntouched
    noted := (Trace.notes_cons id).mpr (Trace.notes_nil _)
    uncleaned := Trace.uncleaned_nil.cons (by simp)
    heeded := Trace.heeded_nil.cons False.elim
    unpassed := id
    unheld := fun held hheld hpassed => (show held = record from hheld) ▸ hpassed
    armed := nofun
    clear := Trace.clear_nil.hear (by simp) }

theorem execute_custody {runId : RunId} :
    Safe custody (Ends config runId) (execute ext config runId) [] := by
  refine Safe.exchange trivial fun answer => ?_
  rcases answer with error | (_ | record)
  · refine Safe.pure trivial (Or.inl ⟨.error error, rfl, fun record heq => ?_⟩)
    cases heq
  · refine Safe.pure trivial (Or.inl ⟨.ok none, rfl, fun record heq => ?_⟩)
    cases heq
  · show Safe custody _ (if record.status ≠ .queued then Program.pure (.ok ()) else
      (drive ext config { record := record }).bind fun c => Program.pure c.1) _
    split
    · next hstarted =>
        refine Safe.pure trivial (Or.inl ⟨.ok (some record), rfl, fun found heq => ?_⟩)
        cases heq
        exact hstarted
    · next hqueued =>
        refine (drive_custody { record := record } _ trivial found_running).trail.bind ?_
        rintro ⟨outcome, s⟩ t _ ⟨hends, hran⟩
        refine Safe.pure trivial (Or.inr ⟨record, ?_, Decidable.not_not.mp hqueued, s, ?_⟩)
        · exact hran.suffix.subset (List.mem_singleton_self _)
        · rcases outcome with error | _
          · exact hends
          · exact hends

end Tail

end Conduct

end PackageHarness
