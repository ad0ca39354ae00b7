/-
# PackageHarness.Dappmanager.Installed — is the package installed as it was requested?

`installedAsRequested` is the check with which the adapter confirms an install or update that was
not answered. It reads the package details and, for a registry reference, the install preview, each
as the port hands it on.
-/
import PackageHarness.Runner.Ports

namespace PackageHarness

open Interaction

namespace Dappmanager

/-- What the installed package says about a requested install reference. -/
inductive InstalledCheck
  | matches
  | differs
  /-- A registry reference; it matches when it resolves to this version. -/
  | compareResolvedVersion (installed : String)
  deriving DecidableEq

def installedCheck (installedOrigin installedVersion : Option String)
    (requested : Option PackageRef) : InstalledCheck :=
  let installedCid := installedOrigin.bind ipfsCid
  match requested.bind fun requested => ipfsCid requested.value with
  | some requestedCid => if installedCid = some requestedCid then .matches else .differs
  | none =>
      -- registry installs record no origin, so an IPFS origin means that the requested release has
      -- not replaced an IPFS build yet
      match installedCid, installedVersion with
      | none, some installed => .compareResolvedVersion installed
      | _, _ => .differs

def installedAsRequested (dnpName : DnpName) (version : Option PackageRef) : Runner Bool := do
  match ← Runner.pm (.getPackageDetails dnpName) with
  | .error _ => return false
  | .ok details =>
      match installedCheck details.origin details.version version with
      | .matches => return true
      | .differs => return false
      | .compareResolvedVersion installed =>
          match ← Runner.pm (.previewInstall dnpName version) with
          | .error _ => return false
          | .ok preview => return preview.semanticVersion == some installed

end Dappmanager

end PackageHarness
