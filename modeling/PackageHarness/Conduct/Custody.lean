/-
# PackageHarness.Conduct.Custody — who answers for a target that may have been changed.

The requirement to clean up is durable before the first mutating call, a signature check is bypassed
only right after a rejection, and the note of a bypass is in every record that is saved later. These
obligations look back at the conversation, so they hold in every run, wherever it stops. `Running`
holds while the algorithm goes on, `Testing` also where it has ended early.
-/
import PackageHarness.Conduct.Execution

namespace PackageHarness

open Interaction Routine

/-! ## Kinds of requests -/

namespace RunnerRequest

def changes : RunnerRequest → Prop
  | pm call => call.mutating = true
  | _ => False

/-- Requests that say what the store holds. -/
def stores : RunnerRequest → Prop
  | save _ _ | get _ => True
  | _ => False

/-- Requests that neither change a package nor concern the store or a signal. -/
def plain : RunnerRequest → Prop
  | pm call => call.mutating = false
  | save _ _ | get _ | control => False
  | _ => True

variable {asked : RunnerRequest}

theorem plain.not_changes (h : asked.plain) : ¬ asked.changes := by
  cases asked with
  | pm call => exact Bool.not_eq_true _ ▸ h
  | _ => exact id

theorem plain.not_stores (h : asked.plain) : ¬ asked.stores := by
  cases asked with
  | save site record => exact h.elim
  | get runId => exact h.elim
  | _ => exact id

theorem bypasses.changes (h : asked.bypasses) : asked.changes := by
  cases asked with
  | pm call => cases call <;> first | exact h.elim | rfl
  | _ => exact h.elim

end RunnerRequest

/-- The note that a bypassed rejection leaves in the record. -/
def bypassNote (rejection : PackageManagerError) : RunError :=
  let text := rejection.toText
  ⟨.baselineSignatureInvalid,
    Redaction.truncateUtf8 s!"baseline signature validation failed and was bypassed: {text}" 500,
    .baselineInstall⟩

/-! ## What a conversation says -/

namespace Trace

/-- The store may hold this record: it was read or saved last, or its save failed after that. -/
def MayHold : Trace → RunRecord → Prop
  | [], _ => False
  | ⟨.save _ saved, .ok _⟩ :: _, held => held = saved
  | ⟨.save _ saved, .error _⟩ :: t, held => held = saved ∨ MayHold t held
  | ⟨.get _, .ok (some found)⟩ :: _, held => held = found
  | _ :: t, held => MayHold t held

/-- Whatever the store holds, a restart would clean up. -/
def Guarded (t : Trace) : Prop := ∀ held, t.MayHold held → held.worker.cleanupRequired = true

/-- The last thing that happened was the entry into a phase. -/
def Boundary (t : Trace) : Prop :=
  ∃ phase required earlier, t = ⟨.publish phase required, ()⟩ :: earlier

/-- No signal was up at a phase boundary. -/
def Clear (t : Trace) : Prop :=
  ∀ signal earlier, ⟨.control, signal⟩ :: earlier <:+ t → Boundary earlier → signal = .proceed

/-- Nothing was changed after a boundary at which a signal was up. -/
def Heeded (t : Trace) : Prop :=
  ∀ x earlier, x :: earlier <:+ t → x.request.changes → Clear earlier

/-- The cleanup has not begun. -/
def Uncleaned (t : Trace) : Prop := ∀ record answer, ⟨.save (.phase .cleanup) record, answer⟩ ∉ t

/-- A rejection was answered by a bypass, and the bypass succeeded. -/
def Bypassed (t : Trace) (rejection : PackageManagerError) : Prop :=
  ∃ dnpName ref earlier, ⟨.pm (.installPackageBypassingSignature dnpName ref), .ok ()⟩ ::
    ⟨.pm (.installPackage dnpName ref), .error rejection⟩ :: earlier <:+ t

/-- The errors note every bypass. -/
def Notes (t : Trace) (errors : List RunError) : Prop :=
  ∀ rejection, t.Bypassed rejection → bypassNote rejection ∈ errors

/-- The record comes with a result that notes what the record notes, and that did not pass if a
signature check was bypassed. -/
def Disclosed (t : Trace) (record : RunRecord) : Prop :=
  ∃ result, record.result = some result ∧ result.errors = record.errors ∧
    ∀ rejection, t.Bypassed rejection → result.verdict ≠ .passed

/-- The obligation of each request. -/
def Warranted (t : Trace) : RunnerRequest → Prop
  | .pm (.installPackageBypassingSignature dnpName ref) => t.Guarded ∧ t.Uncleaned ∧
      ∃ rejection earlier, t = ⟨.pm (.installPackage dnpName ref), .error rejection⟩ :: earlier ∧
        rejection.isSignatureRejection = true
  | .pm call => call.mutating = true → t.Guarded
  | .save site record => t.Notes record.errors ∧ (site = .phase .finished → t.Disclosed record)
  | _ => True

variable {t : Trace} {asked : RunnerRequest} {answer : asked.Answer} {held : RunRecord}

theorem mayHold_cons (h : ¬ asked.stores) : MayHold (⟨asked, answer⟩ :: t) held ↔ t.MayHold held := by
  cases asked with
  | save site record => exact absurd trivial h
  | get runId => exact absurd trivial h
  | _ => exact Iff.rfl

theorem mayHold_save {site : SaveSite} {saved : RunRecord} {answer : Except StoreError Unit}
    (h : MayHold (⟨.save site saved, answer⟩ :: t) held) : held = saved ∨ t.MayHold held := by
  rcases answer with error | _
  · exact h
  · exact Or.inl h

theorem guarded_cons (h : ¬ asked.stores) : Guarded (⟨asked, answer⟩ :: t) ↔ t.Guarded := by
  simp only [Guarded, mayHold_cons h]

theorem guarded_saved {site : SaveSite} {saved : RunRecord} {u : Unit}
    (h : saved.worker.cleanupRequired = true) : Guarded (⟨.save site saved, .ok u⟩ :: t) := by
  rintro held rfl
  exact h

theorem Guarded.save (h : t.Guarded) {site : SaveSite} {saved : RunRecord}
    {answer : Except StoreError Unit} (hsaved : saved.worker.cleanupRequired = true) :
    Guarded (⟨.save site saved, answer⟩ :: t) := by
  intro held hheld
  rcases mayHold_save hheld with rfl | hearlier
  · exact hsaved
  · exact h held hearlier

theorem clear_nil : Clear [] := fun _ _ hsuffix => absurd hsuffix.length_le (by simp)

theorem heeded_nil : Heeded [] := fun _ _ hsuffix => absurd hsuffix.length_le (by simp)

theorem notes_nil (errors : List RunError) : Notes [] errors := by
  rintro rejection ⟨dnpName, ref, earlier, hsuffix⟩
  exact absurd hsuffix.length_le (by simp)

theorem uncleaned_nil : Uncleaned [] := fun _ _ => List.not_mem_nil

theorem Clear.cons (h : t.Clear)
    (hsignal : ∀ signal, (⟨asked, answer⟩ : Exchange _ _) = ⟨.control, signal⟩ → t.Boundary →
      signal = .proceed) :
    Clear (⟨asked, answer⟩ :: t) := by
  intro signal earlier hsuffix hboundary
  rcases List.suffix_cons_iff.mp hsuffix with heq | hearlier
  · obtain ⟨hx, rfl⟩ := List.cons.inj heq
    exact hsignal signal hx.symm hboundary
  · exact h signal earlier hearlier hboundary

theorem Clear.hear (h : t.Clear) (hother : asked ≠ .control) : Clear (⟨asked, answer⟩ :: t) :=
  h.cons fun _ heq => absurd (congrArg Exchange.request heq) hother

theorem Heeded.cons (h : t.Heeded) (hclear : asked.changes → t.Clear) :
    Heeded (⟨asked, answer⟩ :: t) := by
  intro x earlier hsuffix hchanges
  rcases List.suffix_cons_iff.mp hsuffix with heq | hearlier
  · obtain ⟨rfl, rfl⟩ := List.cons.inj heq
    exact hclear hchanges
  · exact h x earlier hearlier hchanges

theorem Uncleaned.cons (h : t.Uncleaned) (hother : ∀ record, asked ≠ .save (.phase .cleanup) record) :
    Uncleaned (⟨asked, answer⟩ :: t) := by
  intro record answer' hmem
  rcases List.mem_cons.mp hmem with heq | hearlier
  · exact hother record (congrArg Exchange.request heq).symm
  · exact h record answer' hearlier

theorem bypassed_cons (h : ¬ asked.bypasses) {rejection : PackageManagerError} :
    Bypassed (⟨asked, answer⟩ :: t) rejection ↔ t.Bypassed rejection := by
  constructor
  · rintro ⟨dnpName, ref, earlier, hsuffix⟩
    rcases List.suffix_cons_iff.mp hsuffix with heq | hearlier
    · cases (List.cons.inj heq).1
      exact absurd trivial h
    · exact ⟨dnpName, ref, earlier, hearlier⟩
  · rintro ⟨dnpName, ref, earlier, hsuffix⟩
    exact ⟨dnpName, ref, earlier, hsuffix.trans (List.suffix_cons ..)⟩

theorem notes_cons (h : ¬ asked.bypasses) {errors : List RunError} :
    Notes (⟨asked, answer⟩ :: t) errors ↔ t.Notes errors := by
  simp only [Notes, bypassed_cons h]

/-- A failed bypass leaves nothing to note. -/
theorem notes_failed {dnpName : DnpName} {ref : Option PackageRef} {error : PackageManagerError}
    {errors : List RunError} (h : t.Notes errors) :
    Notes (⟨.pm (.installPackageBypassingSignature dnpName ref), .error error⟩ :: t) errors := by
  rintro rejection ⟨dnpName', ref', earlier, hsuffix⟩
  rcases List.suffix_cons_iff.mp hsuffix with heq | hearlier
  · cases (List.cons.inj heq).1
  · exact h rejection ⟨dnpName', ref', earlier, hearlier⟩

/-- A bypass that succeeds adds the rejection before it to what has to be noted. -/
theorem notes_bypassed {dnpName : DnpName} {ref : Option PackageRef}
    {rejection : PackageManagerError} {errors : List RunError} {u : Unit}
    (h : Notes (⟨.pm (.installPackage dnpName ref), .error rejection⟩ :: t) errors) :
    Notes (⟨.pm (.installPackageBypassingSignature dnpName ref), .ok u⟩ ::
      ⟨.pm (.installPackage dnpName ref), .error rejection⟩ :: t)
      (errors ++ [bypassNote rejection]) := by
  rintro rejection' ⟨dnpName', ref', earlier, hsuffix⟩
  rcases List.suffix_cons_iff.mp hsuffix with heq | hearlier
  · cases (List.cons.inj (List.cons.inj heq).2).1
    exact List.mem_append_right _ (List.mem_singleton_self _)
  · exact List.mem_append_left _ (h rejection' ⟨dnpName', ref', earlier, hearlier⟩)

theorem Notes.mono {errors errors' : List RunError} (h : t.Notes errors)
    (hmore : ∀ error ∈ errors, error ∈ errors') : t.Notes errors' :=
  fun rejection hbypassed => hmore _ (h rejection hbypassed)

theorem changes_cons (h : ¬ asked.changes) :
    Transcript.Mentions (⟨asked, answer⟩ :: t) RunnerRequest.changes ↔
      t.Mentions RunnerRequest.changes := by
  rw [Transcript.mentions_cons]
  exact or_iff_right h

end Trace

/-- Surroundings that remember, with these obligations. -/
abbrev custody : Discipline RunnerRequest RunnerRequest.Answer Trace := recorded Trace.Warranted

namespace Conduct

open Runner

/-! ## What holds along a run -/

/-- What holds throughout an execution. -/
structure Custody (s : Execution) (t : Trace) : Prop where
  untouched : s.cleanupAuthorized = false → ¬ t.Mentions RunnerRequest.changes
  required : s.cleanupAuthorized = true → s.record.worker.cleanupRequired = true
  guarded : t.Mentions RunnerRequest.changes → t.Guarded
  noted : t.Notes s.record.errors

/-- Nothing has been cleaned up yet. The record says so as well, unless it `came` otherwise. -/
structure Testing (came : Prop) (s : Execution) (t : Trace) : Prop extends Custody s t where
  uncleaned : t.Uncleaned
  heeded : t.Heeded
  unpassed : s.record.cleanup.status = .passed → came
  unheld : ∀ held, t.MayHold held → held.cleanup.status = .passed → came

/-- The algorithm goes on. -/
structure Running (came : Prop) (s : Execution) (t : Trace) : Prop extends Testing came s t where
  armed : s.cleanupAuthorized = true → t.Guarded
  clear : t.Clear

/-- The algorithm goes on, and its last step was not the entry into a phase. -/
def Amid (came : Prop) (s : Execution) (t : Trace) : Prop := Running came s t ∧ ¬ t.Boundary

/-- The algorithm may change the target. -/
def Ready (came : Prop) (s : Execution) (t : Trace) : Prop :=
  Running came s t ∧ s.cleanupAuthorized = true

/-- Changes of the record that concern neither its cleanup nor the notes in it. -/
structure Harmless (f : RunRecord → RunRecord) : Prop where
  required : ∀ record, (f record).worker.cleanupRequired = record.worker.cleanupRequired
  cleanup : ∀ record, (f record).cleanup = record.cleanup
  errors : ∀ record, ∀ error ∈ record.errors, error ∈ (f record).errors

section Steps

variable {came : Prop} {s : Execution} {t : Trace} {asked : RunnerRequest} {answer : asked.Answer}
  {f : RunRecord → RunRecord}

theorem harmless_transition (next : ExecutionPhase) (time : Timestamp) :
    Harmless fun record => record.transition next time :=
  ⟨fun _ => rfl, fun _ => rfl, fun _ _ h => h⟩

theorem harmless_setEvidence (f : RunEvidence → RunEvidence) : Harmless (setEvidence f) :=
  ⟨fun _ => rfl, fun _ => rfl, fun _ _ h => h⟩

theorem harmless_planRecovery (plan : TargetRecoveryPlan) : Harmless (planRecovery plan) :=
  ⟨fun _ => rfl, fun _ => rfl, fun _ _ h => h⟩

theorem harmless_pushError (error : RunError) : Harmless (pushError error) :=
  ⟨fun _ => rfl, fun _ => rfl, fun _ _ h => List.mem_append_left _ h⟩

theorem Custody.modify (h : Custody s t) (hf : Harmless f) : Custody (Execution.modify f s) t where
  untouched := h.untouched
  required := fun hauthorized => (hf.required _).trans (h.required hauthorized)
  guarded := h.guarded
  noted := h.noted.mono (hf.errors _)

theorem Testing.modify (h : Testing came s t) (hf : Harmless f) :
    Testing came (Execution.modify f s) t where
  toCustody := h.toCustody.modify hf
  uncleaned := h.uncleaned
  heeded := h.heeded
  unpassed := fun hpassed => h.unpassed (by rwa [← hf.cleanup s.record])
  unheld := h.unheld

theorem Running.modify (h : Running came s t) (hf : Harmless f) :
    Running came (Execution.modify f s) t where
  toTesting := h.toTesting.modify hf
  armed := h.armed
  clear := h.clear

/-- One exchange that says nothing about the store; a change needs the requirement to be durable. -/
theorem Custody.hear (h : Custody s t) (hstores : ¬ asked.stores)
    (hnoted : Trace.Notes (⟨asked, answer⟩ :: t) s.record.errors)
    (hchanges : asked.changes → s.cleanupAuthorized = true ∧ t.Guarded) :
    Custody s (⟨asked, answer⟩ :: t) where
  untouched := by
    intro hunauthorized hmentions
    rcases Transcript.mentions_cons.mp hmentions with hchange | hearlier
    · exact absurd hunauthorized (by simp [(hchanges hchange).1])
    · exact h.untouched hunauthorized hearlier
  required := h.required
  guarded := by
    intro hmentions
    rw [Trace.guarded_cons hstores]
    rcases Transcript.mentions_cons.mp hmentions with hchange | hearlier
    · exact (hchanges hchange).2
    · exact h.guarded hearlier
  noted := hnoted

theorem Testing.hear (h : Testing came s t) (hstores : ¬ asked.stores)
    (hnoted : Trace.Notes (⟨asked, answer⟩ :: t) s.record.errors)
    (hchanges : asked.changes → s.cleanupAuthorized = true ∧ t.Guarded ∧ t.Clear) :
    Testing came s (⟨asked, answer⟩ :: t) where
  toCustody := h.toCustody.hear hstores hnoted fun hchange =>
    ⟨(hchanges hchange).1, (hchanges hchange).2.1⟩
  uncleaned := h.uncleaned.cons fun _ heq => hstores (heq ▸ trivial)
  heeded := h.heeded.cons fun hchange => (hchanges hchange).2.2
  unpassed := h.unpassed
  unheld := fun _ hheld => h.unheld _ ((Trace.mayHold_cons hstores).mp hheld)

theorem Running.hear (h : Running came s t) (hplain : asked.plain) :
    Running came s (⟨asked, answer⟩ :: t) where
  toTesting := h.toTesting.hear hplain.not_stores
    ((Trace.notes_cons fun hbypass => hplain.not_changes hbypass.changes).mpr h.noted)
    fun hchange => absurd hchange hplain.not_changes
  armed := fun hauthorized => (Trace.guarded_cons hplain.not_stores).mpr (h.armed hauthorized)
  clear := h.clear.hear fun heq => by
    subst heq
    exact hplain

theorem Ready.hear (h : Ready came s t) (hplain : asked.plain) :
    Ready came s (⟨asked, answer⟩ :: t) :=
  ⟨h.1.hear hplain, h.2⟩

/-- A change of the target, with what it leaves to note. -/
theorem Ready.change (h : Ready came s t) {call : PmCall}
    {answer : Except PackageManagerError call.Reply}
    (hnoted : Trace.Notes (⟨.pm call, answer⟩ :: t) s.record.errors) :
    Ready came s (⟨.pm call, answer⟩ :: t) := by
  have hguarded := h.1.armed h.2
  refine ⟨⟨h.1.toTesting.hear id hnoted fun _ => ⟨h.2, hguarded, h.1.clear⟩, fun _ => ?_, ?_⟩, h.2⟩
  · exact (Trace.guarded_cons id).mpr hguarded
  · exact h.1.clear.hear (by simp)

theorem Ready.modify (h : Ready came s t) (hf : Harmless f) :
    Ready came (Execution.modify f s) t :=
  ⟨h.1.modify hf, h.2⟩

/-- What the control cell answers counts at a boundary, and only there. -/
theorem Running.signal (h : Running came s t) {signal : RunControl}
    (hsignal : t.Boundary → signal = .proceed) :
    Running came s (⟨.control, signal⟩ :: t) where
  toTesting := h.toTesting.hear id ((Trace.notes_cons id).mpr h.noted) False.elim
  armed := fun hauthorized => (Trace.guarded_cons id).mpr (h.armed hauthorized)
  clear := h.clear.cons fun signal' heq hboundary => by
    cases heq
    exact hsignal hboundary

theorem not_boundary_cons (hother : ∀ phase required, asked ≠ .publish phase required) :
    ¬ Trace.Boundary (⟨asked, answer⟩ :: t) := by
  rintro ⟨phase, required, earlier, heq⟩
  exact hother phase required (congrArg Exchange.request (List.cons.inj heq).1)

theorem Custody.save (h : Custody s t) {site : SaveSite} {answer : Except StoreError Unit} :
    Custody s (⟨.save site s.record, answer⟩ :: t) where
  untouched := fun hunauthorized hmentions =>
    h.untouched hunauthorized ((Trace.changes_cons id).mp hmentions)
  required := h.required
  guarded := by
    intro hmentions
    have hearlier := (Trace.changes_cons id).mp hmentions
    refine (h.guarded hearlier).save (h.required ?_)
    by_contra hunauthorized
    exact h.untouched (by simpa using hunauthorized) hearlier
  noted := (Trace.notes_cons id).mpr h.noted

theorem Testing.save (h : Testing came s t) {site : SaveSite} (hsite : site ≠ .phase .cleanup)
    {answer : Except StoreError Unit} : Testing came s (⟨.save site s.record, answer⟩ :: t) where
  toCustody := h.toCustody.save
  uncleaned := h.uncleaned.cons fun record heq => hsite (by cases heq; rfl)
  heeded := h.heeded.cons False.elim
  unpassed := h.unpassed
  unheld := by
    intro held hheld
    rcases Trace.mayHold_save hheld with rfl | hearlier
    · exact h.unpassed
    · exact h.unheld held hearlier

theorem Running.save (h : Running came s t) {site : SaveSite} (hsite : site ≠ .phase .cleanup)
    {answer : Except StoreError Unit} : Running came s (⟨.save site s.record, answer⟩ :: t) where
  toTesting := h.toTesting.save hsite
  armed := fun hauthorized => (h.armed hauthorized).save (h.required hauthorized)
  clear := h.clear.hear (by simp)

end Steps

/-! ## The algorithm -/

section Algorithm

variable {ext : Externals} {config : RunnerConfig} {came : Prop} {α ε : Type} {site : SaveSite}
  {asked : RunnerRequest} {F : ε → Execution → Trace → Prop}

theorem warranted_of_plain {t : Trace} (hplain : asked.plain) : t.Warranted asked := by
  cases asked with
  | pm call =>
      cases call with
      | installPackageBypassingSignature dnpName ref => cases hplain
      | _ => exact fun hmutating => absurd hmutating (by simp [show _ = _ from hplain])
  | save saved record => exact hplain.elim
  | _ => trivial

theorem warranted_change {t : Trace} (hguarded : t.Guarded) {call : PmCall}
    (hother : ¬ RunnerRequest.bypasses (.pm call)) : t.Warranted (.pm call) := by
  cases call with
  | installPackageBypassingSignature dnpName ref => exact absurd trivial hother
  | _ => exact fun _ => hguarded

/-- Only the last save has a result to disclose. -/
theorem Custody.warranted {s : Execution} {t : Trace} (h : Custody s t)
    (hsite : site ≠ .phase .finished) : t.Warranted (.save site s.record) :=
  ⟨h.noted, fun hfinished => absurd hfinished hsite⟩

/-- Code of the algorithm that needs no permission to change the target. -/
abbrev Carries (came : Prop) (m : Algorithm α) : Prop :=
  Meets custody (Running came) m (fun _ => Running came) fun _ => Testing came

theorem hear_custody (hplain : asked.plain) :
    Meets custody (Running came) (.run (ask asked)) (fun _ => Running came) F :=
  Meets.ask (fun _ _ _ => warranted_of_plain hplain) fun _ _ _ h => h.hear hplain

theorem modify_custody {f : RunRecord → RunRecord} (hf : Harmless f) :
    Meets custody (Running came) (.update (Execution.modify f)) (fun _ => Running came) F :=
  Meets.update fun _ _ _ h => h.modify hf

/-- A save, from an assertion that warrants it. -/
theorem saveRecord_custody {P Q G : Execution → Trace → Prop}
    (hwarranted : ∀ s t, P s t → t.Warranted (.save site s.record))
    (hok : ∀ s t, P s t → Q s (⟨.save site s.record, .ok ()⟩ :: t))
    (herror : ∀ error s t, P s t → G s (⟨.save site s.record, .error error⟩ :: t)) :
    Meets custody P (saveRecord site) (fun _ => Q) (fun _ => G) := by
  refine Meets.bind_read fun u => ?_
  refine Meets.bind (Q := byOutcome (fun _ => Q) fun _ => G) (Meets.ask ?_ ?_) fun answer => ?_
  · rintro s t ⟨rfl, h⟩
    exact hwarranted _ t h
  · rintro answer s t ⟨rfl, h⟩
    rcases answer with error | _
    · exact herror error _ t h
    · exact hok _ t h
  · rcases answer with error | _
    · exact Meets.throw fun _ _ _ h => h
    · exact Meets.pure fun _ _ _ h => h

theorem saveRunning_custody (hsite : site ≠ .phase .cleanup ∧ site ≠ .phase .finished) :
    Meets custody (Running came) (saveRecord site) (fun _ => Running came)
      (fun _ => Running came) :=
  saveRecord_custody (fun _ _ h => h.warranted hsite.2) (fun _ _ h => h.save hsite.1)
    fun _ _ _ h => h.save hsite.1

theorem saveFailure_custody (hsite : site ≠ .phase .cleanup ∧ site ≠ .phase .finished) :
    Carries came (saveFailure site) :=
  Meets.mapError ((saveRunning_custody hsite).weaken (fun _ _ _ h => h) (fun _ _ _ _ h => h)
    fun _ _ _ _ h => h.toTesting)

theorem phase_custody {next : ExecutionPhase} (hnext : next ≠ .cleanup ∧ next ≠ .finished) :
    Meets custody (Running came) (phase next) (fun _ => Running came) (fun _ => Running came) := by
  have hsite : SaveSite.phase next ≠ .phase .cleanup ∧ SaveSite.phase next ≠ .phase .finished := by
    simpa using hnext
  refine Meets.bind (hear_custody trivial) fun time => ?_
  refine Meets.bind (modify_custody (harmless_transition next time)) fun _ => ?_
  refine Meets.bind (saveRunning_custody hsite) fun _ => ?_
  exact Meets.bind_read_any fun u => hear_custody trivial

/-- The control signal ends the algorithm unless it says to go on. -/
theorem checkControl_custody :
    Meets custody (Running came) checkControl (fun _ => Amid came) (fun _ => Testing came) := by
  refine Meets.bind (Q := fun signal s t => Testing came s t ∧
    (signal = .proceed → Amid came s t)) (Meets.ask (fun _ _ _ => trivial) ?_) fun signal => ?_
  · intro signal s t h
    refine ⟨h.toTesting.hear id ((Trace.notes_cons id).mpr h.noted) False.elim, ?_⟩
    rintro rfl
    exact ⟨h.signal fun _ => rfl, not_boundary_cons (by simp)⟩
  · refine Meets.ofExcept ?_ ?_
    · intro u s t hfine _ h
      cases signal with
      | proceed => exact h.2 rfl
      | cancelRequested => cases hfine
      | claimLost => cases hfine
    · exact fun _ _ _ _ _ h => h.1

theorem phaseFailure_custody {next : ExecutionPhase}
    (hnext : next ≠ .cleanup ∧ next ≠ .finished) :
    Meets custody (Running came) (phaseFailure next) (fun _ => Amid came)
      (fun _ => Testing came) :=
  Meets.bind (Meets.mapError ((phase_custody hnext).weaken (fun _ _ _ h => h)
    (fun _ _ _ _ h => h) fun _ _ _ _ h => h.toTesting)) fun _ => checkControl_custody

theorem enterPhase_custody {next : ExecutionPhase} (hnext : next ≠ .cleanup ∧ next ≠ .finished) :
    Carries came (phaseFailure next) :=
  (phaseFailure_custody hnext).weaken (fun _ _ _ h => h) (fun _ _ _ _ h => h.1)
    fun _ _ _ _ h => h

/-- Code that looks at a package between two phases: no signal that it sees is one at a boundary. -/
theorem sample_custody {post : α → Prop} {p : Runner α} (hp : Within Samples post p) :
    Meets custody (Amid came) (.run p) (fun _ => Amid came) F := by
  refine Meets.run fun s t _ h => ?_
  refine (hp.safe (Amid came s) trivial h ?_ ?_ ?_).mono fun _ _ _ hpost => hpost.1
  · intro asked t hsamples _ _
    cases asked with
    | pm call => exact warranted_of_plain (by simp [RunnerRequest.plain, PmCall.mutating,
        (show call.mutates = none from hsamples.1)])
    | save saved record => exact hsamples.elim
    | _ => trivial
  · intro asked t answer after hsamples _ hamid hanswer
    cases hanswer
    have hunpublished : ∀ phase required, asked ≠ .publish phase required := by
      rintro phase required rfl
      exact hsamples
    refine ⟨?_, not_boundary_cons hunpublished⟩
    cases asked with
    | pm call => exact hamid.1.hear (by simp [RunnerRequest.plain, PmCall.mutating,
        (show call.mutates = none from hsamples.1)])
    | control => exact hamid.1.signal fun hboundary => absurd hboundary hamid.2
    | now => exact hamid.1.hear trivial
    | sleep duration => exact hamid.1.hear trivial
    | _ => exact hsamples.elim
  · exact fun _ _ _ _ _ _ hdrift => hdrift.elim

theorem callOrFail_custody {call : PmCall} {failure : PackageManagerError → Failure}
    (hplain : RunnerRequest.plain (.pm call)) : Carries came (callOrFail call failure) := by
  refine Meets.bind (hear_custody hplain) fun answer => ?_
  rcases answer with error | reply
  · exact Meets.throw fun _ _ _ h => h.toTesting
  · exact Meets.pure fun _ _ _ h => h

theorem failWhen_custody {condition : Bool} {failure : Failure} :
    Carries came (failWhen condition failure) := by
  unfold failWhen
  split
  · exact Meets.throw fun _ _ _ h => h.toTesting
  · exact Meets.pure fun _ _ _ h => h

theorem preflight_custody {package : ResolvedPackage} : Carries came (preflight config package) := by
  refine Meets.bind (enterPhase_custody (by simp)) fun _ => ?_
  refine Meets.bind (callOrFail_custody rfl) fun tools => ?_
  refine Meets.bind failWhen_custody fun _ => ?_
  refine Meets.bind failWhen_custody fun _ => ?_
  refine Meets.bind (callOrFail_custody rfl) fun packages => ?_
  exact Meets.bind failWhen_custody fun _ => Meets.pure fun _ _ _ h => h

theorem recordInventory_custody {package : ResolvedPackage} {packages : List PackageSummary} :
    Carries came (recordInventory package packages) := by
  refine Meets.bind (modify_custody (harmless_setEvidence _)) fun _ => ?_
  refine Meets.bind (saveFailure_custody (by simp)) fun _ => ?_
  refine Meets.bind (modify_custody (harmless_planRecovery _)) fun _ => ?_
  exact saveFailure_custody (by simp)

/-- The requirement is durable once the authorization has been saved. -/
theorem authorizeCleanup_custody :
    Meets custody (Running came) authorizeCleanup (fun _ => Ready came) (fun _ => Testing came) := by
  refine Meets.bind_read fun u => ?_
  split
  · next hauthorized =>
      refine Meets.pure ?_
      rintro s t _ ⟨rfl, h⟩
      exact ⟨h, hauthorized⟩
  · next hunauthorized =>
      let Arming : Execution → Trace → Prop := fun s t =>
        Testing came s t ∧ t.Clear ∧ s.cleanupAuthorized = true
      refine Meets.bind (Q := fun _ => Arming) (Meets.update ?_) fun _ => ?_
      · rintro s t _ ⟨rfl, h⟩
        have huntouched := h.untouched (by simpa using hunauthorized)
        refine ⟨{ h.toTesting with
          untouched := nofun
          required := fun _ => rfl
          guarded := fun hmentions => absurd hmentions huntouched
          noted := h.noted
          unpassed := h.unpassed }, h.clear, rfl⟩
      refine Meets.bind (Q := fun _ => Ready came) (Meets.mapError (saveRecord_custody
        (fun _ _ h => h.1.warranted (by simp)) ?_ fun _ _ _ h => h.1.save (by simp))) fun _ => ?_
      · rintro s t ⟨h, hclear, hauthorized⟩
        refine ⟨⟨h.save (by simp), fun _ => ?_, hclear.hear (by simp)⟩, hauthorized⟩
        exact Trace.guarded_saved (h.required hauthorized)
      · exact Meets.bind_read_any fun v => Meets.ask (fun _ _ _ => trivial)
          fun _ _ _ h => h.hear trivial

/-- Code of the algorithm that changes the target. -/
abbrev Changes (came : Prop) (m : Algorithm α) : Prop :=
  Meets custody (Ready came) m (fun _ => Ready came) fun _ => Testing came

theorem removeInstalled_custody {package : ResolvedPackage} :
    Changes came (removeInstalled package) := by
  refine Meets.bind (Q := fun _ => Ready came) (Meets.ask ?_ ?_) fun answer => ?_
  · exact fun _ _ h => warranted_change (h.1.armed h.2) id
  · exact fun _ _ _ h => h.change ((Trace.notes_cons id).mpr h.1.noted)
  · rcases answer with error | _
    · unfold failWhen
      dsimp only
      split
      · exact Meets.throw fun _ _ _ h => h.1.toTesting
      · exact Meets.pure fun _ _ _ h => h
    · exact Meets.pure fun _ _ _ h => h

/-- The bypass comes right after the rejection, and its success is noted before anything else. -/
theorem installBypassingSignature_custody {package : ResolvedPackage}
    {rejection : PackageManagerError} (hrejection : rejection.isSignatureRejection = true) :
    Meets custody
      (fun s t => Ready came s t ∧ ∃ earlier, t =
        ⟨.pm (.installPackage package.dnpName package.baselineRef), .error rejection⟩ :: earlier)
      (installBypassingSignature package rejection) (fun _ => Ready came)
      (fun _ => Testing came) := by
  refine Meets.bind (Q := byOutcome
    (fun _ s => Ready came (Execution.modify (pushError (bypassNote rejection)) s))
    fun _ => Ready came) (Meets.ask ?_ ?_) fun answer => ?_
  · rintro s t ⟨h, earlier, rfl⟩
    exact ⟨h.1.armed h.2, h.1.uncleaned, rejection, earlier, rfl, hrejection⟩
  · rintro answer s t ⟨h, earlier, rfl⟩
    rcases answer with error | _
    · exact h.change (Trace.notes_failed h.1.noted)
    · exact (h.modify (harmless_pushError _)).change (Trace.notes_bypassed h.1.noted)
  · rcases answer with error | _
    · exact Meets.throw fun _ _ _ h => h.1.toTesting
    · refine Meets.bind (Q := fun _ => Ready came) (Meets.update fun _ _ _ h => h) fun _ => ?_
      refine Meets.mapError (saveRecord_custody (fun _ _ h => h.1.warranted (by simp)) ?_ ?_)
      · exact fun _ _ h => ⟨h.1.save (by simp), h.2⟩
      · exact fun _ _ _ h => h.1.toTesting.save (by simp)

theorem installBaseline_custody {package : ResolvedPackage} :
    Changes came (installBaseline package) := by
  refine Meets.bind (Q := fun answer s t => Ready came s t ∧ ∃ earlier,
    t = ⟨.pm (.installPackage package.dnpName package.baselineRef), answer⟩ :: earlier)
    (Meets.ask ?_ ?_) fun answer => ?_
  · exact fun _ _ h => warranted_change (h.1.armed h.2) id
  · exact fun _ _ _ h => ⟨h.change ((Trace.notes_cons id).mpr h.1.noted), _, rfl⟩
  · rcases answer with error | _
    · dsimp only
      split
      · next hrejection => exact installBypassingSignature_custody hrejection
      · exact Meets.throw fun _ _ _ h => h.1.1.toTesting
    · exact Meets.pure fun _ _ _ h => h.1

theorem prepareBaseline_custody {package : ResolvedPackage} {installed : Option PackageSummary}
    {reuse : Bool} : Carries came (prepareBaseline package installed reuse) := by
  have hinstall : Meets custody (Ready came) (installBaseline package) (fun _ => Running came)
      (fun _ => Testing came) :=
    installBaseline_custody.weaken (fun _ _ _ h => h) (fun _ _ _ _ h => h.1) fun _ _ _ _ h => h
  unfold prepareBaseline
  split
  · exact Meets.pure fun _ _ _ h => h
  · refine Meets.bind authorizeCleanup_custody fun _ => ?_
    dsimp only
    split
    · exact Meets.bind removeInstalled_custody fun _ => hinstall
    · exact hinstall

theorem stabilizeAndCapture_custody {package : ResolvedPackage} {side : Side}
    (hside : side = baselineSide ∨ side = candidateSide) {startedAt : Timestamp}
    {preview : PreviewSummary} {installMs : Nat} :
    Carries came (stabilizeAndCapture ext config package side startedAt preview installMs) := by
  have hphases : (side.stabilizationPhase ≠ .cleanup ∧ side.stabilizationPhase ≠ .finished) ∧
      (side.capturePhase ≠ .cleanup ∧ side.capturePhase ≠ .finished) ∧
      side.captureSite ≠ .phase .cleanup ∧ side.captureSite ≠ .phase .finished := by
    rcases hside with rfl | rfl <;> simp [baselineSide, candidateSide]
  refine Meets.bind (phaseFailure_custody hphases.1) fun _ => ?_
  refine Meets.bind (sample_custody stabilize_samples) fun stabilization => ?_
  refine Meets.bind (checkControl_custody.pre fun _ _ _ h => h.1) fun _ => ?_
  refine Meets.bind ((phaseFailure_custody hphases.2.1).pre fun _ _ _ h => h.1) fun _ => ?_
  refine Meets.bind (sample_custody capture_samples) fun captured => ?_
  rcases captured with error | evidence
  · exact Meets.throw fun _ _ _ h => h.1.toTesting
  · refine Meets.bind ((modify_custody (harmless_setEvidence _)).pre fun _ _ _ h => h.1)
      fun _ => ?_
    refine Meets.bind (saveFailure_custody hphases.2.2) fun _ => ?_
    exact Meets.ofExcept (fun _ _ _ _ _ h => h) fun _ _ _ _ _ h => h.toTesting

theorem reuseInstalledBaseline_custody {package : ResolvedPackage}
    {installed : Option PackageSummary} {preview : PreviewSummary} :
    Carries came (reuseInstalledBaseline package installed preview) := by
  unfold reuseInstalledBaseline
  split
  · refine Meets.bind (hear_custody rfl) fun answer => ?_
    rcases answer with error | details
    · exact Meets.pure fun _ _ _ h => h
    · exact Meets.pure fun _ _ _ h => h
  · exact Meets.pure fun _ _ _ h => h

theorem previewBaseline_custody {package : ResolvedPackage} :
    Carries came (previewBaseline package) :=
  Meets.bind (enterPhase_custody (by simp)) fun _ => callOrFail_custody rfl

theorem previewCandidate_custody {package : ResolvedPackage} :
    Carries came (previewCandidate package) :=
  Meets.bind (enterPhase_custody (by simp)) fun _ => callOrFail_custody rfl

theorem runBaseline_custody {package : ResolvedPackage} {packages : List PackageSummary} :
    Carries came (runBaseline ext config package packages) := by
  refine Meets.bind previewBaseline_custody fun preview => ?_
  refine Meets.bind reuseInstalledBaseline_custody fun reuse => ?_
  refine Meets.bind (enterPhase_custody (by simp)) fun _ => ?_
  refine Meets.bind (hear_custody trivial) fun startedAt => ?_
  refine Meets.bind prepareBaseline_custody fun _ => ?_
  refine Meets.bind (hear_custody trivial) fun finishedAt => ?_
  exact stabilizeAndCapture_custody (Or.inl rfl)

theorem runCandidate_custody {package : ResolvedPackage} :
    Carries came (runCandidate ext config package) := by
  refine Meets.bind previewCandidate_custody fun preview => ?_
  refine Meets.bind (enterPhase_custody (by simp)) fun _ => ?_
  refine Meets.bind authorizeCleanup_custody fun _ => ?_
  refine Meets.bind (Q := fun _ => Ready came) (Meets.ask (fun _ _ _ => trivial)
    fun _ _ _ h => h.hear trivial) fun startedAt => ?_
  refine Meets.bind (Q := fun _ => Running came) ?_ fun _ => ?_
  · refine Meets.bind (Q := fun _ => Ready came) (Meets.ask ?_ ?_) fun answer => ?_
    · exact fun _ _ h => warranted_change (h.1.armed h.2) id
    · exact fun _ _ _ h => h.change ((Trace.notes_cons id).mpr h.1.noted)
    · rcases answer with error | _
      · exact Meets.throw fun _ _ _ h => h.1.toTesting
      · exact Meets.pure fun _ _ _ h => h.1
  · refine Meets.bind (hear_custody trivial) fun finishedAt => ?_
    exact stabilizeAndCapture_custody (Or.inr rfl)

theorem presentEvidence_custody {side : String} {capture : Option CaptureEvidence} :
    Carries came (presentEvidence side capture) := by
  cases capture with
  | none => exact Meets.throw fun _ _ _ h => h.toTesting
  | some capture => exact Meets.pure fun _ _ _ h => h

theorem analyzeEvidence_custody : Carries came (analyzeEvidence ext) := by
  refine Meets.bind (enterPhase_custody (by simp)) fun _ => ?_
  refine Meets.bind_read_any fun u => ?_
  refine Meets.bind presentEvidence_custody fun baseline => ?_
  refine Meets.bind presentEvidence_custody fun candidate => ?_
  refine Meets.bind (modify_custody (harmless_setEvidence _)) fun _ => ?_
  refine Meets.bind (hear_custody trivial) fun answer => ?_
  refine Meets.bind (modify_custody (harmless_setEvidence _)) fun _ => ?_
  exact saveFailure_custody (by simp)

/-- However the algorithm ends. -/
theorem runAlgorithm_custody : Carries came (runAlgorithm ext config) := by
  refine Meets.bind (hear_custody trivial) fun _ => ?_
  refine Meets.bind_read_any fun u => ?_
  refine Meets.bind preflight_custody fun packages => ?_
  refine Meets.bind recordInventory_custody fun _ => ?_
  refine Meets.bind runBaseline_custody fun _ => ?_
  exact Meets.bind runCandidate_custody fun _ => analyzeEvidence_custody

end Algorithm

end Conduct

end PackageHarness
