/-
# PackageHarness.Config — the configuration that a process is started with.

`Config` has the settings that decide whether destructive tests are acceptable and those that `main`
hands to the worker and the controller. Where `from_env` has a default for a variable, the field has
it too. `main` builds the worker from a configuration and spawns it; it asks nothing else of it.
-/
import PackageHarness.Worker.Loop

namespace PackageHarness

/-- Package manager implementation selected at startup. -/
inductive PackageManagerMode
  | mcp
  | fake
  deriving DecidableEq

structure Config where
  harnessDnpName : String := "package-harness.dnp.dappnode.eth"
  allowDestructiveTests : Bool := false
  packageManagerMode : PackageManagerMode := .mcp
  dappmanagerMcpUrl : Option String := none
  dappmanagerMcpToken : Option String := none
  stabilizationTimeout : Duration := .ofMillis 180000
  stabilizationPoll : Duration := .ofMillis 5000
  stabilizationRequiredSamples : Nat := 3
  logTail : Nat := 300
  cleanupTimeout : Duration := .ofMillis 60000
  packageHarnessWorkerId : String
  packageHarnessPoll : Duration
  packageHarnessHeartbeat : Duration

namespace Config

/-- The first startup problem that makes destructive tests unsafe. -/
def acceptanceError (config : Config) : Option String :=
  if !config.allowDestructiveTests then
    some "ALLOW_DESTRUCTIVE_PACKAGE_TESTS must be true"
  else if config.packageManagerMode = .mcp then
    if config.dappmanagerMcpUrl.isNone then
      some "DAPPMANAGER_MCP_URL is not configured"
    else if config.dappmanagerMcpToken.isNone then
      some "DAPPMANAGER_MCP_TOKEN is not configured"
    else none
  else none

/-- What `main` builds the controller and the worker with. -/
def deployment (config : Config) : Deployment where
  runner :=
    { harnessDnpName := config.harnessDnpName
      stabilization :=
        { timeout := config.stabilizationTimeout
          pollInterval := config.stabilizationPoll
          requiredSamples := config.stabilizationRequiredSamples }
      logTail := config.logTail
      cleanupTimeout := config.cleanupTimeout }
  worker :=
    { workerId := config.packageHarnessWorkerId
      harnessDnpName := config.harnessDnpName
      pollInterval := config.packageHarnessPoll
      heartbeatInterval := config.packageHarnessHeartbeat
      cleanupTimeout := config.cleanupTimeout }

end Config

end PackageHarness
