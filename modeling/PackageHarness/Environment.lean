/-
# PackageHarness.Environment — loading the configuration from the process environment.

`fromEnv` reads every variable that the harness knows, in the order in which the first problem is
reported. `Settings` adds to `Config` what only the clients of other services are built from; the
data directory and the listen address, whose text a port always completes, are left out. The URL
parser is a third-party crate's and enters as a function.
-/
import PackageHarness.Config

namespace PackageHarness

inductive ConfigError
  | invalid (name message : String)

def ConfigError.toText : ConfigError → String
  | invalid name message => s!"invalid configuration {name}: {message}"

/-- The environment variables that hold Unicode text. -/
abbrev Variables := String → Option String

/-- What is asked of a parsed URL. -/
structure Url where
  scheme : String
  host : Option String

abbrev UrlParser := String → Except String Url

/-- The complete worker configuration. -/
structure Settings extends Config where
  port : Nat
  mcpTimeout : Duration
  /-- Timeout reserved for package installation, update, and removal calls. -/
  mcpMutationTimeout : Duration
  /-- Maximum number of attempts for transient package mutations. -/
  mcpMutationAttempts : Nat
  /-- Initial delay between transient mutation attempts. Later delays back off. -/
  mcpMutationRetryDelay : Duration
  nexusApiKey : Option String
  nexusBaseUrl : String
  nexusModel : String
  nexusTimeout : Duration
  nexusMaxInputBytes : Nat
  tropibotUrl : String
  packageHarnessWorkerToken : String
  tropibotTimeout : Duration

namespace Environment

variable (environment : Variables)

/-! ## Reading one variable -/

def parseDigits (limit : Nat) : (value : Nat) → List Char → Except String Nat
  | value, [] => .ok value
  | value, c :: cs =>
      if c.isDigit then
        let next := value * 10 + (c.toNat - '0'.toNat)
        if next < limit then parseDigits limit next cs
        else .error "number too large to fit in target type"
      else .error "invalid digit found in string"

/-- Parsing text as an unsigned integer of this many bits. -/
def parseUnsigned (bits : Nat) (text : String) : Except String Nat :=
  match text.toList with
  | [] => .error "cannot parse integer from empty string"
  | ['+'] => .error "invalid digit found in string"
  | '+' :: digits => parseDigits (2 ^ bits) 0 digits
  | digits => parseDigits (2 ^ bits) 0 digits

def parse (bits : Nat) (name : String) (byDefault : Nat) : Except ConfigError Nat :=
  match environment name with
  | none => .ok byDefault
  | some value => (parseUnsigned bits value).mapError (.invalid name)

def ensure (condition : Bool) (name message : String) : Except ConfigError Unit :=
  if condition then .ok () else .error (.invalid name message)

/-- An unsigned integer that has to lie between two bounds. -/
def bounded (bits : Nat) (name : String) (byDefault low high : Nat) (message : String) :
    Except ConfigError Nat := do
  let value ← parse environment bits name byDefault
  ensure (low ≤ value && value ≤ high) name message
  return value

def millis (name : String) (byDefault : Nat) : Except ConfigError Duration := do
  let value ← bounded environment 64 name byDefault 100 600000
    "must be between 100 and 600000 milliseconds"
  return .ofMillis value

def longMillis (name : String) (byDefault : Nat) : Except ConfigError Duration := do
  let value ← bounded environment 64 name byDefault 100 3600000
    "must be between 100 and 3600000 milliseconds"
  return .ofMillis value

/-- A variable that counts as unset when it is blank. -/
def optional (name : String) : Option String :=
  (environment name).filter fun value => !(trim value.toList).isEmpty

def required (name : String) : Except ConfigError String :=
  match optional environment name with
  | none => .error (.invalid name "must be configured")
  | some value => .ok value

def requiredSeconds (name : String) : Except ConfigError Duration := do
  let text ← required environment name
  let value ← (parseUnsigned 64 text).mapError (.invalid name)
  ensure (1 ≤ value && value ≤ 300) name "must be between 1 and 300 seconds"
  return .ofMillis (value * 1000)

def boolValue (name : String) (byDefault : Bool) : Except ConfigError Bool :=
  match environment name with
  | none => .ok byDefault
  | some "true" => .ok true
  | some "false" => .ok false
  | some _ => .error (.invalid name "must be 'true' or 'false'")

def packageManagerModeValue : Except ConfigError PackageManagerMode :=
  match (environment "PACKAGE_MANAGER_MODE").getD "mcp" with
  | "mcp" => .ok .mcp
  | "fake" => .ok .fake
  | value => .error (.invalid "PACKAGE_MANAGER_MODE" s!"unsupported value '{value}'")

def validateUrl (parseUrl : UrlParser) (name value : String) : Except ConfigError Unit := do
  let parsed ← (parseUrl value).mapError (.invalid name)
  ensure (parsed.scheme == "https" && parsed.host.isSome) name "must be an absolute HTTPS URL"

def validateWorkerId (value : String) : Except ConfigError Unit :=
  ensure (1 ≤ value.utf8ByteSize && value.utf8ByteSize ≤ 128 &&
      value.toList.all fun c => c.isAlphanum || "._-".toList.contains c)
    "PACKAGE_HARNESS_WORKER_ID" "must contain 1-128 ASCII letters, digits, '.', '_' or '-'"

/-! ## The whole configuration -/

/-- Builds complete worker configuration from process environment variables. -/
def fromEnv (parseUrl : UrlParser) : Except ConfigError Settings := do
  let port ← parse environment 16 "PORT" 8080
  let logTail ← bounded environment 64 "LOG_TAIL" 300 1 500 "must be between 1 and 500"
  let requiredSamples ← bounded environment 64 "STABILIZATION_REQUIRED_SAMPLES" 3 1 20
    "must be between 1 and 20"
  let mutationAttempts ← bounded environment 64 "MCP_MUTATION_ATTEMPTS" 3 1 10
    "must be between 1 and 10"
  let packageManagerMode ← packageManagerModeValue environment
  let tropibotUrl ← required environment "TROPIBOT_URL"
  validateUrl parseUrl "TROPIBOT_URL" tropibotUrl
  let workerId ← required environment "PACKAGE_HARNESS_WORKER_ID"
  validateWorkerId workerId
  let workerToken ← required environment "PACKAGE_HARNESS_WORKER_TOKEN"
  ensure (workerToken.utf8ByteSize ≤ 4096) "PACKAGE_HARNESS_WORKER_TOKEN"
    "must not exceed 4096 bytes"
  let poll ← requiredSeconds environment "PACKAGE_HARNESS_POLL_SECONDS"
  let heartbeat ← requiredSeconds environment "PACKAGE_HARNESS_HEARTBEAT_SECONDS"
  let stabilizationTimeout ← millis environment "STABILIZATION_TIMEOUT_MS" 180000
  let stabilizationPoll ← millis environment "STABILIZATION_POLL_MS" 5000
  -- the conversion of the interval count cannot fail for the sample counts accepted above
  ensure (stabilizationPoll * (requiredSamples - 1) ≤ stabilizationTimeout)
    "STABILIZATION_TIMEOUT_MS"
    s!"must allow {requiredSamples} samples at the configured poll interval"
  let nexusMaxInputBytes ← bounded environment 64 "NEXUS_MAX_INPUT_BYTES" (64 * 1024) 1024
    (1024 * 1024) "must be between 1024 and 1048576 bytes"
  let allowDestructiveTests ← boolValue environment "ALLOW_DESTRUCTIVE_PACKAGE_TESTS" false
  let mcpTimeout ← millis environment "MCP_TIMEOUT_MS" 30000
  let mcpMutationTimeout ← longMillis environment "MCP_MUTATION_TIMEOUT_MS" 1800000
  let mcpMutationRetryDelay ← millis environment "MCP_MUTATION_RETRY_DELAY_MS" 5000
  let cleanupTimeout ← millis environment "CLEANUP_TIMEOUT_MS" 60000
  let nexusTimeout ← millis environment "NEXUS_TIMEOUT_MS" 300000
  let tropibotTimeout ← millis environment "TROPIBOT_TIMEOUT_MS" 15000
  return {
    port := port
    harnessDnpName := (environment "HARNESS_DNP_NAME").getD "package-harness.dnp.dappnode.eth"
    allowDestructiveTests := allowDestructiveTests
    packageManagerMode := packageManagerMode
    dappmanagerMcpUrl := optional environment "DAPPMANAGER_MCP_URL"
    dappmanagerMcpToken := optional environment "DAPPMANAGER_MCP_TOKEN"
    mcpTimeout := mcpTimeout
    mcpMutationTimeout := mcpMutationTimeout
    mcpMutationAttempts := mutationAttempts
    mcpMutationRetryDelay := mcpMutationRetryDelay
    stabilizationTimeout := stabilizationTimeout
    stabilizationPoll := stabilizationPoll
    stabilizationRequiredSamples := requiredSamples
    logTail := logTail
    cleanupTimeout := cleanupTimeout
    nexusApiKey := optional environment "NEXUS_API_KEY"
    nexusBaseUrl := (environment "NEXUS_BASE_URL").getD "https://nexus-api.dappnode.com/v1"
    nexusModel := (environment "NEXUS_MODEL").getD "nexus/auto"
    nexusTimeout := nexusTimeout
    nexusMaxInputBytes := nexusMaxInputBytes
    tropibotUrl := tropibotUrl
    packageHarnessWorkerId := workerId
    packageHarnessWorkerToken := workerToken
    packageHarnessPoll := poll
    packageHarnessHeartbeat := heartbeat
    tropibotTimeout := tropibotTimeout }

/-! ## What is accepted -/

/-- A duration of whole milliseconds between two bounds. -/
def MillisWithin (low high : Nat) (duration : Duration) : Prop :=
  ∃ ms, low ≤ ms ∧ ms ≤ high ∧ duration = .ofMillis ms

/-- What every loaded configuration satisfies. -/
structure Accepted (settings : Settings) : Prop where
  logTail : 1 ≤ settings.logTail ∧ settings.logTail ≤ 500
  requiredSamples : 1 ≤ settings.stabilizationRequiredSamples ∧
    settings.stabilizationRequiredSamples ≤ 20
  mutationAttempts : 1 ≤ settings.mcpMutationAttempts ∧ settings.mcpMutationAttempts ≤ 10
  stabilizationTimeout : MillisWithin 100 600000 settings.stabilizationTimeout
  stabilizationPoll : MillisWithin 100 600000 settings.stabilizationPoll
  /-- The timeout has room for the samples that are required. -/
  window : settings.stabilizationPoll * (settings.stabilizationRequiredSamples - 1) ≤
    settings.stabilizationTimeout
  nexusMaxInputBytes : 1024 ≤ settings.nexusMaxInputBytes ∧
    settings.nexusMaxInputBytes ≤ 1024 * 1024
  mcpMutationTimeout : MillisWithin 100 3600000 settings.mcpMutationTimeout
  cleanupTimeout : MillisWithin 100 600000 settings.cleanupTimeout

theorem ensure_eq_ok {condition : Bool} {name message : String} {u : Unit} :
    ensure condition name message = .ok u ↔ condition = true := by
  unfold ensure
  split <;> simp_all

variable {environment}

theorem bounded_within {bits byDefault low high value : Nat} {name message : String}
    (h : bounded environment bits name byDefault low high message = .ok value) :
    low ≤ value ∧ value ≤ high := by
  obtain ⟨parsed, -, h⟩ := bind_eq_ok.mp h
  obtain ⟨_, hbounds, h⟩ := bind_eq_ok.mp h
  cases h
  simpa using ensure_eq_ok.mp hbounds

theorem millis_within {name : String} {byDefault : Nat} {duration : Duration}
    (h : millis environment name byDefault = .ok duration) : MillisWithin 100 600000 duration := by
  obtain ⟨value, hvalue, h⟩ := bind_eq_ok.mp h
  cases h
  obtain ⟨hlow, hhigh⟩ := bounded_within hvalue
  exact ⟨value, hlow, hhigh, rfl⟩

theorem longMillis_within {name : String} {byDefault : Nat} {duration : Duration}
    (h : longMillis environment name byDefault = .ok duration) :
    MillisWithin 100 3600000 duration := by
  obtain ⟨value, hvalue, h⟩ := bind_eq_ok.mp h
  cases h
  obtain ⟨hlow, hhigh⟩ := bounded_within hvalue
  exact ⟨value, hlow, hhigh, rfl⟩

/-- Everything that is loaded has passed its checks. -/
theorem fromEnv_accepted {parseUrl : UrlParser} {settings : Settings}
    (h : fromEnv environment parseUrl = .ok settings) : Accepted settings := by
  simp only [fromEnv, bind_eq_ok] at h
  obtain ⟨port, -, logTail, hlogTail, requiredSamples, hsamples, mutationAttempts, hattempts,
    mode, -, tropibotUrl, -, _, -, workerId, -, _, -, token, -, _, -, poll, -, heartbeat, -,
    stabilizationTimeout, htimeout, stabilizationPoll, hpoll, _, hwindow, nexusMaxInputBytes,
    hbytes, allow, -, mcpTimeout, -, mutationTimeout, hmutation, retryDelay, -, cleanupTimeout,
    hcleanup, nexusTimeout, -, tropibotTimeout, -, h⟩ := h
  cases h
  exact
    { logTail := bounded_within hlogTail
      requiredSamples := bounded_within hsamples
      mutationAttempts := bounded_within hattempts
      stabilizationTimeout := millis_within htimeout
      stabilizationPoll := millis_within hpoll
      window := by simpa using ensure_eq_ok.mp hwindow
      nexusMaxInputBytes := bounded_within hbytes
      mcpMutationTimeout := longMillis_within hmutation
      cleanupTimeout := millis_within hcleanup }

/-! ## The least that has to be set -/

/-- The variables without a default, next to whatever else is set. -/
def essentials (others : Variables) : Variables
  | "TROPIBOT_URL" => some "https://tropibot.example"
  | "PACKAGE_HARNESS_WORKER_ID" => some "worker-1"
  | "PACKAGE_HARNESS_WORKER_TOKEN" => some "token"
  | "PACKAGE_HARNESS_POLL_SECONDS" => some "5"
  | "PACKAGE_HARNESS_HEARTBEAT_SECONDS" => some "30"
  | name => others name

def httpsOnly : UrlParser := fun _ => .ok ⟨"https", some "tropibot.example"⟩

/-- Every default passes its own check. -/
theorem defaults_accepted : ∃ settings, fromEnv (essentials fun _ => none) httpsOnly = .ok settings ∧
    settings.deployment.runner.stabilization = ⟨.ofMillis 180000, .ofMillis 5000, 3⟩ ∧
    settings.deployment.runner.cleanupTimeout = .ofMillis 60000 :=
  ⟨_, rfl, rfl, rfl⟩

end Environment

end PackageHarness
