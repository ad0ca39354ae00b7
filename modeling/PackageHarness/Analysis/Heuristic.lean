/-
# PackageHarness.Analysis.Heuristic — the deterministic log analyzer.

`analyzeHeuristically` looks for configured signatures in the candidate logs that occur nowhere in
the baseline logs. It lists at most twenty findings, each container and signature once, and reads
its status off that list.
-/
import PackageHarness.PackageManager
import PackageHarness.Runner.Stabilization

namespace PackageHarness

open Redaction

namespace Heuristic

/-- Case-insensitive log fragments treated as suspicious by the deterministic analyzer. -/
def SIGNATURES : List (String × FindingSeverity) :=
  [("panic", .critical), ("fatal", .critical), ("segmentation fault", .critical),
    ("uncaught exception", .critical), ("unhandled rejection", .critical),
    ("out of memory", .critical), ("permission denied", .warning), ("restart loop", .warning)]

def MAX_FINDINGS : Nat := 20

def occurs (log pattern : String) : Bool := containsText (toAsciiLowercase log) pattern

/-- The set of signatures in some logs, in ascending order. -/
def signatures (logs : List (Option String × String)) : List String :=
  sortNames ((SIGNATURES.map (·.1)).filter fun pattern => logs.any fun log => occurs log.2 pattern)

def side (signatures : List String) : AnalysisSide :=
  if signatures.isEmpty then
    ⟨.clean, "No configured suspicious signature was found"⟩
  else
    let names := ", ".intercalate signatures
    ⟨.suspicious, truncateUtf8 s!"Configured signatures found: {names}" 300⟩

/-! ## Excerpts -/

/-- The byte offset of the first occurrence. -/
def findText (needle : List Char) : List Char → Option Nat
  | [] => if needle.isEmpty then some 0 else none
  | c :: cs =>
      if needle.isPrefixOf (c :: cs) then some 0
      else (findText needle cs).map (· + c.utf8Size)

/-- The first character boundary from `gap` bytes before `index` on. -/
def boundaryBefore (s : String) (index : Nat) : (gap : Nat) → Nat
  | 0 => index
  | gap + 1 =>
      if isCharBoundary s (index - (gap + 1)) then index - (gap + 1)
      else boundaryBefore s index gap

/-- The last character boundary up to `gap` bytes behind `index`. -/
def boundaryBehind (s : String) (index : Nat) : (gap : Nat) → Nat
  | 0 => index
  | gap + 1 =>
      if isCharBoundary s (index + (gap + 1)) then index + (gap + 1)
      else boundaryBehind s index gap

def excerpt (log pattern : String) : String :=
  match findText pattern.toList (toAsciiLowercase log).toList with
  | none => ""
  | some index =>
      let safeStart := boundaryBefore log index (min index 80)
      let finish := min (index + pattern.utf8ByteSize + 120) log.utf8ByteSize
      let safeEnd := boundaryBehind log index (finish - index)
      if safeStart ≤ safeEnd && isCharBoundary log safeStart && isCharBoundary log safeEnd then
        String.Pos.Raw.extract log ⟨safeStart⟩ ⟨safeEnd⟩
      else ""

/-! ## Findings -/

/-- The findings so far, and what they are deduplicated by. -/
structure Found where
  newFindings : List LogFinding := []
  deduplicated : List (Option String × String) := []

def findingReason (pattern : String) : String := s!"candidate-only log signature: {pattern}"

def finding (ext : Externals) (container : Option String) (log pattern : String)
    (severity : FindingSeverity) : LogFinding where
  severity := severity
  container := container
  evidence := redactAndBound ext (excerpt log pattern) 240
  reason := findingReason pattern

/-- The inner loop, over the signatures that are left to try on one log. -/
def scanLog (ext : Externals) (baseline : List String) (container : Option String) (log : String) :
    List (String × FindingSeverity) → Found → Found
  | [], found => found
  | (pattern, severity) :: rest, found =>
      if !occurs log pattern || baseline.contains pattern ||
          found.deduplicated.contains (container, pattern) then
        scanLog ext baseline container log rest found
      else
        let found : Found :=
          { newFindings := found.newFindings ++ [finding ext container log pattern severity]
            deduplicated := found.deduplicated ++ [(container, pattern)] }
        if found.newFindings.length = MAX_FINDINGS then found
        else scanLog ext baseline container log rest found

/-- The outer loop, over the candidate's logs. -/
def scanLogs (ext : Externals) (baseline : List String) :
    List (Option String × String) → Found → Found
  | [], found => found
  | (container, log) :: rest, found =>
      let found := scanLog ext baseline container log SIGNATURES found
      if found.newFindings.length = MAX_FINDINGS then found
      else scanLogs ext baseline rest found

def statusOf (findings : List LogFinding) : AnalyzerStatus :=
  if findings.any fun finding => finding.severity == .critical then .critical
  else if findings.isEmpty then .clean
  else .suspicious

def statusSummary : AnalyzerStatus → String
  | .clean => "No configured candidate-only suspicious signature was found"
  | .suspicious => "Candidate logs contain new advisory warning signatures"
  | .critical => "Candidate logs contain new advisory critical signatures"
  | .inconclusive => "Heuristic analysis was inconclusive"

/-- Performs signature analysis without any network dependency. -/
def analyzeHeuristically (ext : Externals) (input : LogAnalysisInput) : LogAnalysisResult :=
  let baselineSignatures := signatures input.baseline
  let candidateSignatures := signatures input.candidate
  let found := scanLogs ext baselineSignatures input.candidate {}
  let status := statusOf found.newFindings
  { analyzer := .heuristic
    status := status
    summary := statusSummary status
    baseline := side baselineSignatures
    candidate := side candidateSignatures
    newFindings := found.newFindings
    analyzerErrors := []
    components := [] }

end Heuristic

end PackageHarness
