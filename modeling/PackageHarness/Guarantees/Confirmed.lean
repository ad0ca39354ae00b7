/-
# PackageHarness.Guarantees.Confirmed — the adapter and the controller agree on what is installed.

A mutation that was not answered is confirmed by the adapter, and what it has installed is checked
once more by the controller. The two checks are written independently of each other; on the same
preview and the same details they give the same answer.
-/
import PackageHarness.Dappmanager.Installed
import PackageHarness.Interaction.Scripted
import PackageHarness.System.Scenario

namespace PackageHarness

open Interaction Dappmanager

/-- A package manager that shows these details and resolves every reference to this preview. -/
def shows (details : PackageDetails) (preview : PreviewSummary) :
    Script RunnerRequest RunnerRequest.Answer Unit
  | _, .pm (.getPackageDetails _) => some (.ok details, ())
  | _, .pm (.previewInstall _ _) => some (.ok preview, ())
  | _, _ => none

variable {details : PackageDetails} {preview : PreviewSummary} {requested : Option PackageRef}
  {dnpName : DnpName} {capture : CaptureEvidence} {side : String} {reason : ReasonCode}

/-- What the adapter answers, read off the details and the preview. -/
theorem installedAsRequested_returns {installed : String}
    (hversion : details.version = some installed) :
    Returns (shows details preview)
      (fun confirmed _ => confirmed = true ↔
        details.origin.bind ipfsCid = (requested.bind fun requested => ipfsCid requested.value) ∧
          ((requested.bind fun requested => ipfsCid requested.value) = none →
            preview.semanticVersion = some installed))
      (installedAsRequested dnpName requested) () := by
  refine Returns.perform rfl ?_
  dsimp only [installedCheck]
  rw [hversion]
  cases hrequested : requested.bind fun requested => ipfsCid requested.value with
  | some requestedCid =>
      dsimp only
      by_cases hsame : details.origin.bind ipfsCid = some requestedCid
      · rw [if_pos hsame]
        exact Returns.pure ⟨fun _ => ⟨hsame, nofun⟩, fun _ => rfl⟩
      · rw [if_neg hsame]
        exact Returns.pure ⟨nofun, fun h => absurd h.1 hsame⟩
  | none =>
      cases horigin : details.origin.bind ipfsCid with
      | some cid =>
          refine Returns.pure ⟨nofun, ?_⟩
          rintro ⟨hnone, _⟩
          cases hnone
      | none =>
          refine Returns.perform rfl (Returns.pure ?_)
          rw [beq_iff_eq]
          exact ⟨fun hsame => ⟨rfl, fun _ => hsame⟩, fun h => h.2 rfl⟩

/-- What the controller accepts, where both the preview and the details have a version. -/
theorem appliedVersion_ok_iff {expected installed : String}
    (hpreview : capture.preview = some preview) (hdetails : capture.details = some details)
    (hexpected : preview.semanticVersion = some expected)
    (hversion : details.version = some installed) :
    Runner.appliedVersion capture side reason = .ok () ↔
      expected = installed ∧ preview.resolvedRef.bind ipfsCid = details.origin.bind ipfsCid := by
  have horigin : Runner.appliedVersion.appliedOrigin capture side reason = .ok () ↔
      preview.resolvedRef.bind ipfsCid = details.origin.bind ipfsCid := by
    unfold Runner.appliedVersion.appliedOrigin
    rw [hdetails, hpreview]
    dsimp only [Option.bind_some]
    by_cases hsame : preview.resolvedRef.bind ipfsCid = details.origin.bind ipfsCid
    · have htrue : sameInstallOrigin preview.resolvedRef details.origin = true := beq_iff_eq.mpr hsame
      rw [if_pos htrue]
      exact ⟨fun _ => hsame, fun _ => rfl⟩
    · have hfalse : ¬ sameInstallOrigin preview.resolvedRef details.origin = true := fun htrue =>
        hsame (beq_iff_eq.mp htrue)
      rw [if_neg hfalse]
      exact ⟨nofun, fun heq => absurd heq hsame⟩
  have hresolved : capture.preview.bind PreviewSummary.semanticVersion = some expected := by
    rw [hpreview]
    exact hexpected
  have hreported : Runner.reportedVersion (some capture) = some installed := by
    show capture.details.bind PackageDetails.version = some installed
    rw [hdetails]
    exact hversion
  unfold Runner.appliedVersion
  rw [hresolved, hreported]
  dsimp only
  by_cases hsame : expected = installed
  · rw [if_neg (not_not_intro hsame), horigin]
    exact ⟨fun h => ⟨hsame, h⟩, fun h => h.2⟩
  · rw [if_pos hsame]
    exact ⟨nofun, fun h => absurd h.1 hsame⟩

/-- The adapter confirms an installation exactly if the controller's check of the same preview and
details succeeds. Of the package manager it is used that a preview's origin has the content
identifier that was asked for, and that one identifier has one version. -/
theorem installed_checks_agree (dnpName : DnpName) (requested : Option PackageRef)
    (side : String) (reason : ReasonCode) {expected installed : String}
    (hpreview : capture.preview = some preview) (hdetails : capture.details = some details)
    (hexpected : preview.semanticVersion = some expected)
    (hversion : details.version = some installed)
    (horigin : preview.resolvedRef.bind ipfsCid =
      requested.bind fun requested => ipfsCid requested.value)
    (hrelease : ∀ cid, preview.resolvedRef.bind ipfsCid = some cid →
      details.origin.bind ipfsCid = some cid → expected = installed) :
    Returns (shows details preview)
      (fun confirmed _ => confirmed = true ↔
        Runner.appliedVersion capture side reason = .ok ())
      (installedAsRequested dnpName requested) () := by
  refine (installedAsRequested_returns hversion).mono fun confirmed _ hconfirmed => ?_
  rw [hconfirmed, appliedVersion_ok_iff hpreview hdetails hexpected hversion, horigin]
  constructor
  · rintro ⟨hsame, hregistry⟩
    refine ⟨?_, hsame.symm⟩
    -- an identifier fixes the version; without one, the adapter has compared the versions
    cases hcid : requested.bind fun requested => ipfsCid requested.value with
    | some cid => exact hrelease cid (horigin.trans hcid) (hsame.trans hcid)
    | none => exact Option.some.inj (hexpected.symm.trans (hregistry hcid))
  · rintro ⟨hversions, hsame⟩
    exact ⟨hsame.symm, fun _ => hversions ▸ hexpected⟩

namespace Sample

/-- A release that is asked for by its content identifier, and installed from it. -/
def releaseRef : PackageRef := ⟨"/ipfs/QmYwAPJzv5CZsnA625s3Xf2nemtYgPpHdWEz79ojWnPbdG"⟩

def releaseDetails : PackageDetails := ⟨⟨"target"⟩, some "1.2.3", some releaseRef.value, []⟩

def releasePreview : PreviewSummary :=
  ⟨none, some "1.2.3", some releaseRef.value, none, false, ""⟩

def releaseCapture : CaptureEvidence where
  installStatus := .passed
  installDurationMs := 0
  preview := some releasePreview
  details := some releaseDetails
  stabilization := ⟨true, 3, 0, [], []⟩
  logs := none
  logError := none
  startedAt := ""
  finishedAt := ""

end Sample

/-- An installed release is confirmed, and the controller accepts it. -/
theorem release_is_confirmed :
    Returns (shows Sample.releaseDetails Sample.releasePreview)
      (fun confirmed _ => confirmed = true ↔
        Runner.appliedVersion Sample.releaseCapture "baseline" .baselineInstallFailed = .ok ())
      (installedAsRequested ⟨"target"⟩ (some Sample.releaseRef)) () := by
  have hexpected : Sample.releasePreview.semanticVersion = some "1.2.3" := by decide
  have hpreview : Sample.releaseCapture.preview = some Sample.releasePreview := rfl
  exact installed_checks_agree ⟨"target"⟩ (some Sample.releaseRef) "baseline" .baselineInstallFailed
    hpreview rfl hexpected rfl rfl fun _ _ _ => rfl

end PackageHarness
