/-
# PackageHarness.Model.Job — the validation of a job before it is accepted.

`RunId.parse` and `RunRequest.tryFrom` refuse what they do not accept with the field and the message
of the first check that fails. The two parsers of package names and references are a third-party
crate's and enter as functions.
-/
import PackageHarness.Model.Evidence

namespace PackageHarness

inductive DomainError
  | validation (field message : String)

def DomainError.toText : DomainError → String
  | validation field message => s!"invalid {field}: {message}"

namespace Validation

def ensure (condition : Bool) (field message : String) : Except DomainError Unit :=
  if condition then .ok () else .error (.validation field message)

/-- The text itself, if its length in bytes lies between the bounds. -/
def bounded (value field : String) (minimum maximum : Nat) : Except DomainError String := do
  ensure (minimum ≤ value.utf8ByteSize && value.utf8ByteSize ≤ maximum) field
    s!"length must be between {minimum} and {maximum} bytes"
  return value

/-- The characters of an identifier. -/
def isIdentifierChar (c : Char) : Bool := c.isAlphanum || "._-".toList.contains c

def validRepositoryPart (part : List Char) : Bool :=
  !part.isEmpty && (part.map Char.utf8Size).sum ≤ 100 && part.all isIdentifierChar

/-- An owner and a name, with one slash between them. -/
def validRepository (repository : String) : Bool :=
  match repository.toList.splitOn '/' with
  | [owner, name] => validRepositoryPart owner && validRepositoryPart name
  | _ => false

end Validation

open Validation

def RunId.parse (value : String) : Except DomainError RunId := do
  let value ← bounded value "runId" 1 128
  ensure (value.toList.all isIdentifierChar) "runId" "contains unsafe characters"
  return ⟨value⟩

structure SourceDto where
  repository : String
  pullRequest : UInt64
  headSha : String

structure PackageRequestDto where
  dnpName : String
  candidateRef : String
  baselineRef : Option String

structure RunRequestDto where
  schemaVersion : UInt8
  runId : String
  source : SourceDto
  package : PackageRequestDto

/-- The parsers of the types shared between DAppNode programs, with the texts of their errors. -/
structure DappnodeTypes where
  parseDnpName : String → Except String DnpName
  parsePackageRef : String → Except String PackageRef

variable (types : DappnodeTypes)

def parsePackageRef (value field : String) : Except DomainError PackageRef :=
  (types.parsePackageRef value).mapError (.validation field)

def RunRequest.tryFrom (dto : RunRequestDto) : Except DomainError RunRequest := do
  ensure (dto.schemaVersion == 1) "schemaVersion" "only version 1 is supported"
  let runId ← RunId.parse dto.runId
  let repository ← bounded dto.source.repository "source.repository" 3 200
  ensure (validRepository repository) "source.repository" "must be an ASCII owner/repository name"
  ensure (dto.source.pullRequest != 0) "source.pullRequest" "must be positive"
  let headSha ← bounded dto.source.headSha "source.headSha" 7 64
  ensure (headSha.toList.all Char.isHexDigit) "source.headSha"
    "must contain only hexadecimal characters"
  let dnpName ← (types.parseDnpName dto.package.dnpName).mapError (.validation "package.dnpName")
  let candidateRef ← parsePackageRef types dto.package.candidateRef "package.candidateRef"
  let baselineRef ← dto.package.baselineRef.mapM fun value =>
    parsePackageRef types value "package.baselineRef"
  return {
    schemaVersion := 1
    runId := runId
    source := {
      repository := repository
      pullRequest := dto.source.pullRequest.toNat
      headSha := headSha
    }
    package := {
      dnpName := dnpName
      candidateRef := candidateRef
      baselineRef := baselineRef
    }
  }

/-! ## What an accepted job is like -/

namespace Validation

theorem ensure_eq_ok {condition : Bool} {field message : String} {u : Unit} :
    ensure condition field message = .ok u ↔ condition = true := by
  rw [ensure]
  cases condition with
  | false => exact iff_of_false (fun h => by cases h) (by decide)
  | true => exact iff_of_true rfl rfl

theorem bounded_eq_ok {value field accepted : String} {minimum maximum : Nat}
    (h : bounded value field minimum maximum = .ok accepted) :
    accepted = value ∧ minimum ≤ value.utf8ByteSize ∧ value.utf8ByteSize ≤ maximum := by
  obtain ⟨_, hensure, hvalue⟩ := bind_eq_ok.mp h
  have hsize := ensure_eq_ok.mp hensure
  rw [Bool.and_eq_true, decide_eq_true_eq, decide_eq_true_eq] at hsize
  cases hvalue
  exact ⟨rfl, hsize⟩

theorem validRepository_parts {repository : String} (h : validRepository repository = true) :
    ∃ owner name, repository.toList.splitOn '/' = [owner, name] ∧
      validRepositoryPart owner = true ∧ validRepositoryPart name = true := by
  rw [validRepository] at h
  split at h
  · next owner name hsplit =>
      rw [Bool.and_eq_true] at h
      exact ⟨owner, name, hsplit, h⟩
  · cases h

theorem isIdentifierChar_of_validRepositoryPart {part : List Char}
    (h : validRepositoryPart part = true) : ∀ c ∈ part, isIdentifierChar c = true := by
  rw [validRepositoryPart, Bool.and_eq_true] at h
  exact List.all_eq_true.mp h.2

end Validation

/-- An accepted id is the text that was asked about, and consists of identifier characters. -/
theorem RunId.parse_eq_ok {value : String} {run : RunId} (h : RunId.parse value = .ok run) :
    run.value = value ∧ (1 ≤ value.utf8ByteSize ∧ value.utf8ByteSize ≤ 128) ∧
      ∀ c ∈ value.toList, isIdentifierChar c = true := by
  obtain ⟨accepted, hbounded, hrest⟩ := bind_eq_ok.mp h
  obtain ⟨_, hchars, hrun⟩ := bind_eq_ok.mp hrest
  obtain ⟨rfl, hsize⟩ := bounded_eq_ok hbounded
  cases hrun
  exact ⟨rfl, hsize, List.all_eq_true.mp (ensure_eq_ok.mp hchars)⟩

/-- An accepted source: where the job is from, in the form that the checks admit. -/
structure RunSource.Accepted (source : RunSource) : Prop where
  repository : validRepository source.repository = true
  pullRequest : 0 < source.pullRequest ∧ source.pullRequest < 2 ^ 64
  headSha : 7 ≤ source.headSha.utf8ByteSize ∧ source.headSha.utf8ByteSize ≤ 64
  hexadecimal : ∀ c ∈ source.headSha.toList, c.isHexDigit = true

theorem mapError_eq_ok {ε δ α : Type} {x : Except ε α} {f : ε → δ} {a : α}
    (h : x.mapError f = .ok a) : x = .ok a := by
  cases x with
  | error error => cases h
  | ok value =>
      cases h
      rfl

/-- An accepted package: each of its parts was parsed. -/
structure PackageRequest.Parsed (types : DappnodeTypes) (package : PackageRequest) : Prop where
  dnpName : ∃ text, types.parseDnpName text = .ok package.dnpName
  candidateRef : ∃ text, types.parsePackageRef text = .ok package.candidateRef
  baselineRef : ∀ reference, package.baselineRef = some reference →
    ∃ text, types.parsePackageRef text = .ok reference

structure RunRequest.Accepted (types : DappnodeTypes) (request : RunRequest) : Prop where
  schemaVersion : request.schemaVersion = 1
  source : request.source.Accepted
  package : request.package.Parsed types

theorem RunRequest.tryFrom_eq_ok {types : DappnodeTypes} {dto : RunRequestDto}
    {request : RunRequest} (h : RunRequest.tryFrom types dto = .ok request) :
    RunId.parse dto.runId = .ok request.runId ∧ request.Accepted types := by
  obtain ⟨_, -, h⟩ := bind_eq_ok.mp h
  obtain ⟨run, hrun, h⟩ := bind_eq_ok.mp h
  obtain ⟨repository, -, h⟩ := bind_eq_ok.mp h
  obtain ⟨_, hrepository, h⟩ := bind_eq_ok.mp h
  obtain ⟨_, hpull, h⟩ := bind_eq_ok.mp h
  obtain ⟨headSha, hbounded, h⟩ := bind_eq_ok.mp h
  obtain ⟨_, hhex, h⟩ := bind_eq_ok.mp h
  obtain ⟨dnpName, hname, h⟩ := bind_eq_ok.mp h
  obtain ⟨candidate, hcandidate, h⟩ := bind_eq_ok.mp h
  obtain ⟨baseline, hbaseline, hrequest⟩ := bind_eq_ok.mp h
  obtain ⟨rfl, hsize⟩ := bounded_eq_ok hbounded
  cases hrequest
  have hpositive : dto.source.pullRequest ≠ 0 := bne_iff_ne.mp (ensure_eq_ok.mp hpull)
  refine ⟨hrun, rfl, ⟨ensure_eq_ok.mp hrepository, ⟨?_, dto.source.pullRequest.toNat_lt⟩, hsize,
    List.all_eq_true.mp (ensure_eq_ok.mp hhex)⟩, ⟨_, mapError_eq_ok hname⟩,
    ⟨_, mapError_eq_ok hcandidate⟩, ?_⟩
  · rw [Nat.pos_iff_ne_zero]
    intro hzero
    exact hpositive (UInt64.toNat_inj.mp hzero)
  · rintro reference rfl
    cases hvalue : dto.package.baselineRef with
    | none =>
        rw [hvalue] at hbaseline
        cases hbaseline
    | some value =>
        rw [hvalue] at hbaseline
        obtain ⟨parsed, hparsed, hsome⟩ := bind_eq_ok.mp hbaseline
        cases hsome
        exact ⟨value, mapError_eq_ok hparsed⟩

end PackageHarness
