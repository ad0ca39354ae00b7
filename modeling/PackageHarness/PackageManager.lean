/-
# PackageHarness.PackageManager — the capability surface of the package manager and its errors.

A `PmCall` is one call of the `PackageManager` trait; `PmCall.Reply` is what it answers on success.
Calls that change installed packages are told apart by `PmCall.mutating`. An inventory read carries
the place in the code that asks for it, so that statements can speak of the preflight inventory.
-/
import PackageHarness.Model.Run

namespace PackageHarness

inductive PackageManagerError
  | configuration (message : String)
  | transport (message : String)
  | timeout (name : String)
  | tool (name message : String)
  | invalidResponse (name message : String)
  | requiredSetup
  | notFound

/-- Whether `needle` occurs somewhere in a text. -/
def occursIn (needle : List Char) : List Char → Bool
  | [] => needle.isEmpty
  | c :: cs => needle.isPrefixOf (c :: cs) || occursIn needle cs

def containsText (text needle : String) : Bool := occursIn needle.toList text.toList

theorem occursIn_iff {needle text : List Char} :
    occursIn needle text = true ↔ needle <:+: text := by
  induction text with
  | nil => simp [occursIn]
  | cons c cs ih =>
      rw [occursIn, Bool.or_eq_true, ih, List.isPrefixOf_iff_prefix, List.infix_cons_iff]

theorem containsText_iff {text needle : String} :
    containsText text needle = true ↔ needle.toList <:+: text.toList := occursIn_iff

def toAsciiLowercase (text : String) : String := String.ofList (text.toList.map Char.toLower)

def retryableTransportMessage (message : String) : Bool :=
  let lower := toAsciiLowercase message
  !containsText lower "401" && !containsText lower "403" && !containsText lower "unauthorized" &&
    !containsText lower "forbidden" && !containsText lower "not_logged_in"

def retryableToolMessage (message : String) : Bool :=
  let lower := toAsciiLowercase message
  ["can't download", "cannot download", "could not get block", "failed to fetch",
    "connection reset", "econnreset", "socket hang up", "temporarily unavailable", "timed out",
    "timeout", "terminated"].any (containsText lower)

namespace PackageManagerError

def toText : PackageManagerError → String
  | configuration message => s!"package manager configuration is invalid: {message}"
  | transport message => s!"MCP transport failure: {message}"
  | timeout name => s!"MCP tool '{name}' timed out"
  | .tool name message => s!"MCP tool '{name}' failed: {message}"
  | invalidResponse name message => s!"MCP tool '{name}' returned invalid data: {message}"
  | requiredSetup => "package requires setup values that the proof of concept cannot supply"
  | notFound => "package was not found"

/-- Whether repeating a package mutation may recover from this failure. -/
def isTransientMutationFailure : PackageManagerError → Bool
  | timeout _ => true
  | transport message => retryableTransportMessage message
  | tool _ message => retryableToolMessage message
  | configuration _ | invalidResponse _ _ | requiredSetup | notFound => false

/-- Whether the package manager rejected a package because its signature was not safe. -/
def isSignatureRejection (error : PackageManagerError) : Bool :=
  let message := toAsciiLowercase error.toText
  let mentionsSignature := containsText message "signature" ||
    containsText message "signed restriction" || containsText message "not signed" ||
    containsText message "unsigned"
  let indicatesRejection := containsText message "invalid" || containsText message "bad" ||
    containsText message "unsafe" || containsText message "not signed" ||
    containsText message "unsigned" || containsText message "restriction" ||
    containsText message "reject" || containsText message "bypass_signed_restriction"
  mentionsSignature && indicatesRejection

def isNotFound : PackageManagerError → Bool
  | notFound => true
  | _ => false

end PackageManagerError

structure ToolAvailability where
  available : List String
  missing : List String

def MUTATING_MCP_TOOLS : List String :=
  ["dappnode_install_package", "dappnode_update_package", "dappnode_remove_package"]

namespace ToolAvailability

/-- True when every required tool is available. -/
def ready (tools : ToolAvailability) : Bool := tools.missing.isEmpty

def message (tools : ToolAvailability) : String :=
  if tools.ready then
    "all required Dappmanager MCP tools are available"
  else
    let missing := ", ".intercalate tools.missing
    if tools.missing.any (MUTATING_MCP_TOOLS.contains ·) then
      s!"required MCP tools are missing: {missing}; " ++
        "external MCP mutating tools are probably disabled"
    else
      s!"required MCP tools are missing: {missing}"

end ToolAvailability

/-- The code that reads an inventory. The source has one `list_packages` call at each of these
places; the call itself carries no such argument. -/
inductive InventoryUse
  | claimCheck
  | preflight
  | restoreVerification
  | finalInventory
  | restartCheck
  deriving DecidableEq

/-- The calls of the `PackageManager` trait that the harness makes. -/
inductive PmCall
  | verifyTools
  | listPackages (purpose : InventoryUse)
  | getPackageDetails (dnpName : DnpName)
  | getPackageLogs (dnpName : DnpName) (tail : Nat)
  | previewInstall (dnpName : DnpName) (version : Option PackageRef)
  | installPackage (dnpName : DnpName) (version : Option PackageRef)
  | installPackageBypassingSignature (dnpName : DnpName) (version : Option PackageRef)
  | updatePackage (dnpName : DnpName) (version : PackageRef)
  | removePackage (dnpName : DnpName) (deleteVolumes : Bool)
  deriving DecidableEq

namespace PmCall

@[reducible] def Reply : PmCall → Type
  | verifyTools => ToolAvailability
  | listPackages _ => List PackageSummary
  | getPackageDetails _ => PackageDetails
  | getPackageLogs _ _ => PackageLogs
  | previewInstall _ _ => PreviewSummary
  | installPackage _ _ | installPackageBypassingSignature _ _ | updatePackage _ _
  | removePackage _ _ => Unit

/-- The package a mutating call changes. -/
def mutates : PmCall → Option DnpName
  | installPackage dnpName _ | installPackageBypassingSignature dnpName _
  | updatePackage dnpName _ | removePackage dnpName _ => some dnpName
  | verifyTools | listPackages _ | getPackageDetails _ | getPackageLogs _ _
  | previewInstall _ _ => none

def mutating (call : PmCall) : Bool := call.mutates.isSome

/-- Whether the call destroys the package's data volumes. -/
def deletesVolumes : PmCall → Bool
  | removePackage _ deleteVolumes => deleteVolumes
  | _ => false

end PmCall

end PackageHarness
