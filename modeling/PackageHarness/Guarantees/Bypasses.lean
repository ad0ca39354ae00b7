/-
# PackageHarness.Guarantees.Bypasses — when a signature check is bypassed.

A bypass answers a rejection by Dappmanager, and a target installed that way is never called good.
Whether an error is such a rejection is read off its text, and the errors of the harness itself have
texts as well: with those kept apart, every bypass is justified.
-/
import PackageHarness.Conduct.Rehearsal
import PackageHarness.Conduct.Restoration
import PackageHarness.Guarantees.Failed

namespace PackageHarness

open Interaction Routine Conduct

/-- Before the cleanup, only Dappmanager answers an installation with an error that reads like the
rejection of a signature. -/
def Trace.Candid (t : Trace) : Prop :=
  ∀ dnpName ref error earlier, ⟨.pm (.installPackage dnpName ref), .error error⟩ :: earlier <:+ t →
    Trace.Uncleaned earlier → error.isSignatureRejection = true → error.ByTool

/-- The record and its result note a bypassed rejection, and the result is not a success. -/
def RunRecord.Admits (record : RunRecord) (rejection : PackageManagerError) : Prop :=
  bypassNote rejection ∈ record.errors ∧ ∃ result, record.result = some result ∧
    bypassNote rejection ∈ result.errors ∧ result.verdict ≠ .passed

/-- Every bypass so far answers a rejection by Dappmanager, and what was saved admits it. -/
structure Trace.Justified (t : Trace) : Prop where
  rejected : ∀ dnpName ref answer earlier,
    ⟨.pm (.installPackageBypassingSignature dnpName ref), answer⟩ :: earlier <:+ t →
    ∃ name message, Trace.Called earlier (.installPackage dnpName ref) (.error (.tool name message))
  noted : ∀ site record answer earlier, ⟨.save site record, answer⟩ :: earlier <:+ t →
    ∀ rejection, Trace.Bypassed earlier rejection → bypassNote rejection ∈ record.errors
  admitted : ∀ record answer earlier, ⟨.save (.phase .finished) record, answer⟩ :: earlier <:+ t →
    ∀ rejection, Trace.Bypassed earlier rejection → record.Admits rejection

section

variable {ext : Externals} {config : RunnerConfig} {runId : RunId} {t : Trace}
  {p : Runner (Except ControllerError Unit)}

/-- What a save owes to a bypass, wherever the execution is. -/
theorem save_warranted (h : Reaches recording (Runner.execute ext config runId, []) (p, t))
    {site : SaveSite} {record : RunRecord} {answer : Except StoreError Unit} {earlier : Trace}
    (hsuffix : ⟨.save site record, answer⟩ :: earlier <:+ t) :
    earlier.Notes record.errors ∧ (site = .phase .finished → earlier.Disclosed record) :=
  Safe.guarded execute_custody h hsuffix

theorem Trace.Disclosed.admits {record : RunRecord} {rejection : PackageManagerError}
    (h : t.Disclosed record) (hnoted : t.Notes record.errors) (hbypassed : t.Bypassed rejection) :
    record.Admits rejection := by
  obtain ⟨result, hresult, herrors, hverdict⟩ := h
  refine ⟨hnoted rejection hbypassed, result, hresult, ?_, hverdict rejection hbypassed⟩
  rw [herrors]
  exact hnoted rejection hbypassed

/-- A bypass comes right after a rejection, and among candid errors that one is Dappmanager's. -/
theorem bypass_rejected (h : Reaches recording (Runner.execute ext config runId, []) (p, t))
    (hcandid : t.Candid) {dnpName : DnpName} {ref : Option PackageRef}
    {answer : Except PackageManagerError Unit} {earlier : Trace}
    (hsuffix : ⟨.pm (.installPackageBypassingSignature dnpName ref), answer⟩ :: earlier <:+ t) :
    ∃ name message, earlier.Called (.installPackage dnpName ref) (.error (.tool name message)) := by
  have hwarranted : earlier.Warranted (.pm (.installPackageBypassingSignature dnpName ref)) :=
    Safe.guarded execute_custody h hsuffix
  obtain ⟨_, huncleaned, rejection, before, rfl, hrejection⟩ := hwarranted
  have hbefore : Trace.Uncleaned before := fun record saved hmem =>
    huncleaned record saved (List.mem_cons_of_mem _ hmem)
  have hasked : ⟨.pm (.installPackage dnpName ref), .error rejection⟩ :: before <:+ t :=
    (List.suffix_cons ..).trans hsuffix
  have htool := hcandid dnpName ref rejection before hasked hbefore hrejection
  cases rejection with
  | tool name message => exact ⟨name, message, List.mem_cons_self ..⟩
  | _ => exact htool.elim

/-- As long as the errors of an execution are candid, its bypasses are justified; and an execution
that returns has persisted a record that admits them. -/
theorem bypasses_justified (h : Reaches recording (Runner.execute ext config runId, []) (p, t))
    (hcandid : t.Candid) :
    t.Justified ∧ (p = .pure (.ok ()) → ∀ rejection, t.Bypassed rejection →
      ∃ final, t.Persisted final ∧ final.Admits rejection) := by
  refine ⟨⟨?_, ?_, ?_⟩, ?_⟩
  · exact fun dnpName ref answer earlier hsuffix => bypass_rejected h hcandid hsuffix
  · exact fun site record answer earlier hsuffix => (save_warranted h hsuffix).1
  · intro record answer earlier hsuffix rejection hbypassed
    obtain ⟨hnoted, hdisclosed⟩ := save_warranted h hsuffix
    exact (hdisclosed rfl).admits hnoted hbypassed
  · rintro rfl rejection hbypassed
    rcases Safe.ends execute_custody h with ⟨answer, rfl, _⟩ | ⟨record, _, _, s, hends⟩
    · obtain ⟨dnpName, ref, earlier, hsuffix⟩ := hbypassed
      exact absurd hsuffix.length_le (by simp)
    · obtain ⟨htailed, hreported, hpersisted⟩ := hends
      exact ⟨s.record, hpersisted, hreported.2.admits htailed.custody.noted hbypassed⟩

end

/-! ## Two rejections -/

namespace Sample

/-- Every checked installation is answered by this error, and everything else succeeds. -/
def rejecting (rejection : PackageManagerError) :
    (call : PmCall) → Except PackageManagerError call.Reply
  | .installPackage _ _ => .error rejection
  | call => cooperative none none (.ok ()) call

def rejects (rejection : PackageManagerError) : Scenario :=
  { installFails (fun _ _ => false) with packageManager := rejecting rejection }

/-- The baseline has been installed without a signature check. -/
def bypassed : PmCall := .installPackageBypassingSignature target none

theorem installs_rejected {rejection : PackageManagerError} {dnpName : DnpName}
    {ref : Option PackageRef} {answer : Except PackageManagerError Unit}
    (h : (rehearse (answers (rejects rejection))).2.Called (.installPackage dnpName ref) answer) :
    answer = .error rejection := by
  have hreply := mem_rehearsed h
  simp only [Exchange.mk.injEq, heq_eq_eq, true_and] at hreply
  exact hreply

end Sample

/-- The rejection of a signature by Dappmanager. -/
def unsafeSignature : PackageManagerError :=
  .tool "dappnode_install_package" "package signature is invalid"

/-- Dappmanager cannot be reached, because of its certificate. -/
def unsafeCertificate : PackageManagerError :=
  .transport "invalid peer certificate: BadSignature"

def overridden : Showing fun c => Sample.concludes c (fun _ => true) &&
    c.2.any fun x => x.request.isCall Sample.bypassed :=
  ⟨Sample.rehearse (Sample.answers (Sample.rejects unsafeSignature)), by decide +kernel⟩

def misread : Showing fun c => Sample.concludes c (fun _ => true) &&
    c.2.any fun x => x.request.isCall Sample.bypassed :=
  ⟨Sample.rehearse (Sample.answers (Sample.rejects unsafeCertificate)), by decide +kernel⟩

/-- A rejected signature, bypassed and admitted. -/
theorem overridden_justified :
    overridden.1.2.Called Sample.bypassed (.ok ()) ∧ overridden.1.2.Justified := by
  obtain ⟨hconcludes, hasked⟩ := Bool.and_eq_true_iff.mp overridden.2
  obtain ⟨hexecutes, _⟩ := Sample.executes_rehearsed rfl hconcludes
  refine ⟨Sample.called_of_asks hasked, (bypasses_justified hexecutes.returned ?_).1⟩
  intro dnpName ref error earlier hsuffix _ _
  cases Sample.installs_rejected (hsuffix.subset (List.mem_cons_self ..))
  trivial

/-- A bypass that answers an error of the connection. -/
theorem certificate_error_bypasses_signature : ∃ t : Trace,
    Reaches recording (Runner.execute Sample.ext Sample.deployment.runner Sample.run, [])
      (.pure (.ok ()), t) ∧ t.Called Sample.bypassed (.ok ()) ∧
    ∀ dnpName ref name message,
      ¬ t.Called (.installPackage dnpName ref) (.error (.tool name message)) := by
  obtain ⟨hconcludes, hasked⟩ := Bool.and_eq_true_iff.mp misread.2
  obtain ⟨hexecutes, _⟩ := Sample.executes_rehearsed rfl hconcludes
  refine ⟨misread.1.2, hexecutes.returned, Sample.called_of_asks hasked, ?_⟩
  intro dnpName ref name message hcalled
  cases Sample.installs_rejected hcalled

end PackageHarness
