/-
# PackageHarness.Coordinator.Endpoints — the URLs that are built from a job.

The coordinator client joins a relative reference to its base URL for every request about a job or
about its worker; the dashboard shows links to the repository, the pull request and the commit that
a job came from. Identifiers are written into these texts as they are, and whoever opens the URL
resolves its dot segments.
-/
import PackageHarness.Coordinator.Protocol
import PackageHarness.Environment
import PackageHarness.Model.Job
import PackageHarness.Text.UrlPath

namespace PackageHarness

open UrlPath

/-! ## The coordinator -/

/-- A parsed URL with its path. -/
structure ServiceUrl extends Url where
  path : Parsed

structure CoordinatorClient where
  basePath : Parsed
  workerId : String

def CoordinatorClient.new (baseUrl : ServiceUrl) (workerId : String) :
    Except CoordinatorError CoordinatorClient :=
  if ¬(baseUrl.scheme = "http" ∨ baseUrl.scheme = "https") then
    .error (.url "URL scheme must be http or https")
  else if baseUrl.host.isNone then
    .error (.url "URL must contain a host")
  else
    -- the path ends with a slash if its last segment is empty
    let endsWithSlash := baseUrl.path.segments.getLast? = some []
    .ok {
      basePath := if endsWithSlash then baseUrl.path else baseUrl.path.withSlash
      workerId := workerId
    }

inductive JobAction
  | heartbeat
  | complete
  | ready
  deriving DecidableEq

def JobAction.toText : JobAction → String
  | heartbeat => "heartbeat"
  | complete => "complete"
  | ready => "ready"

def jobPath (jobId : RunId) (action : JobAction) : String :=
  s!"v1/package-harness/jobs/{jobId.value}/{action.toText}"

def heartbeatPath (jobId : RunId) : String := jobPath jobId .heartbeat

def completePath (jobId : RunId) : String := jobPath jobId .complete

def readyPath (jobId : RunId) : String := jobPath jobId .ready

namespace CoordinatorClient

variable (client : CoordinatorClient)

def lostJobPath : String := s!"v1/package-harness/workers/{client.workerId}/lost-job"

/-- The path of the URL that a request is sent to. -/
def endpoint (reference : String) : Parsed := client.basePath.resolve reference.toList

/-- The segments under which the endpoints are found. -/
def root : List Segment := client.basePath.segments.dropLast

end CoordinatorClient

/-! ## The dashboard -/

/-- How a script engine writes a number: with decimal digits only, as long as it has 64 bits. -/
structure NumberFormat where
  print : Nat → String
  digits : ∀ n < 2 ^ 64, ∀ c ∈ (print n).toList, c.isDigit = true

structure OverviewLinks where
  repository : String
  pullRequest : String
  headCommit : String

/-- The links of `renderJobOverview`. -/
def renderJobOverview (numbers : NumberFormat) (source : RunSource) : OverviewLinks :=
  let repositoryUrl := s!"https://github.com/{source.repository}"
  {
    repository := repositoryUrl
    pullRequest := s!"{repositoryUrl}/pull/{numbers.print source.pullRequest}"
    headCommit := s!"{repositoryUrl}/commit/{source.headSha}"
  }

/-- The path that a link leads to on its host, if the host is the expected one. -/
def githubPath (href : String) : Option Parsed :=
  (afterLead "https://github.com/" href.toList).map Parsed.ofText

end PackageHarness
