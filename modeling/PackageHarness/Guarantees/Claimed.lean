/-
# PackageHarness.Guarantees.Claimed — a claimed job can be stored and found again.

What the coordinator sends is checked once, when it is claimed. The record that is created then has
its own file in the directory, whatever the job's id is, and the file is read as the record.
-/
import PackageHarness.Coordinator.Claim
import PackageHarness.Storage.Rehearsal

namespace PackageHarness

open Validation

/-- The types shared between DAppNode programs are read from a stored value as they were parsed. -/
structure ForeignTexts.Agrees (foreign : ForeignTexts) (types : DappnodeTypes) : Prop where
  dnpName : ∀ {text name}, types.parseDnpName text = .ok name →
    foreign.readDnpName name.value = some name
  packageRef : ∀ {text reference}, types.parsePackageRef text = .ok reference →
    foreign.readPackageRef reference.value = some reference

/-- The file of a run: one name in the directory, listed with the others, and no temporary one. -/
structure RunId.Filed (run : RunId) : Prop where
  segment : '/' ∉ (FileRunStore.fileName run).toList
  listed : extension (FileRunStore.fileName run) = some "json"
  lasting : ¬ Temporary (FileRunStore.fileName run)

theorem RunId.filed_of_parse {value : String} {run : RunId} (h : RunId.parse value = .ok run) :
    run.Filed := by
  obtain ⟨hvalue, ⟨hsize, _⟩, hchars⟩ := RunId.parse_eq_ok h
  rw [← hvalue] at hsize hchars
  refine ⟨fun hslash => ?_, extension_fileName ?_, fun htemporary => ?_⟩
  · have hmem : '/' ∈ run.value.toList := by simpa [FileRunStore.fileName] using hslash
    have hidentifier : isIdentifierChar '/' = true := hchars '/' hmem
    revert hidentifier
    decide
  · rintro hempty
    rw [hempty] at hsize
    revert hsize
    decide
  · exact ne_fileName_of_temporary htemporary run rfl

theorem RunRequest.Accepted.fits {types : DappnodeTypes} {foreign : ForeignTexts}
    {request : RunRequest} (hagrees : foreign.Agrees types) (h : request.Accepted types) :
    (RunRequest.format foreign).Fits request := by
  have hversion : request.schemaVersion < 2 ^ 8 := by
    rw [h.schemaVersion]
    decide
  have hsource : RunSource.format.Fits request.source := ⟨trivial, h.source.pullRequest.2, trivial⟩
  obtain ⟨_, hname⟩ := h.package.dnpName
  obtain ⟨_, hcandidate⟩ := h.package.candidateRef
  have hpackage : (PackageRequest.format foreign).Fits request.package := by
    refine ⟨hagrees.dnpName hname, hagrees.packageRef hcandidate, fun reference hreference => ?_⟩
    obtain ⟨_, hbaseline⟩ := h.package.baselineRef reference hreference
    exact hagrees.packageRef hbaseline
  exact ⟨hversion, rfl, hsource, hpackage⟩

namespace Sample

/-- Package names and references that are taken as they are. -/
def types : DappnodeTypes := ⟨fun text => .ok ⟨text⟩, fun text => .ok ⟨text⟩⟩

def response : ClaimResponse where
  schemaVersion := 1
  jobId := "run-1"
  claimToken := "claim-token-1"
  source := ⟨"dappnode/example", 7, "0123456789abcdef"⟩
  package := ⟨"example.dnp.dappnode.eth", "0.2.0", none⟩

theorem accepts_response : ClaimedJob.tryFrom types response = .ok ⟨request, "claim-token-1"⟩ := rfl

theorem agrees : foreign.Agrees types where
  dnpName h := by cases h; rfl
  packageRef h := by cases h; rfl

end Sample

/-- For every claim response that is accepted: the token can be sent back, the job has a file of its
own, and its new record is written to that file's text and read from it unchanged. -/
theorem ClaimedJob.storable {types : DappnodeTypes} {foreign : ForeignTexts}
    {elsewhere : String → Except String RunRecord} {response : ClaimResponse} {job : ClaimedJob} {now : Timestamp}
    (hagrees : foreign.Agrees types) (hnow : (Timestamp.format foreign).Fits now)
    (haccepted : tryFrom types response = .ok job) :
    OpaqueToken job.claimToken ∧ job.request.runId.Filed ∧
      (∀ {other : ClaimResponse} {rival : ClaimedJob}, tryFrom types other = .ok rival →
        FileRunStore.fileName rival.request.runId = FileRunStore.fileName job.request.runId →
        other.jobId = response.jobId) ∧
      ∃ text, (RunRecord.files foreign elsewhere).toVecPretty
          (.claimed job.request job.claimToken now) = .ok text ∧
        (RunRecord.files foreign elsewhere).fromSlice text =
          .ok (.claimed job.request job.claimToken now) := by
  obtain ⟨htoken, hrun, hrequest⟩ := tryFrom_eq_ok haccepted
  refine ⟨htoken, RunId.filed_of_parse hrun, fun hother hname => ?_, ?_⟩
  · obtain ⟨_, hrival, _⟩ := tryFrom_eq_ok hother
    rw [← (RunId.parse_eq_ok hrun).1, ← (RunId.parse_eq_ok hrival).1, fileName_injective hname]
  · have hfits : (RunRecord.format foreign).Fits (.claimed job.request job.claimToken now) :=
      RunRecord.fits_claimed (hrequest.fits hagrees) hnow
    exact ⟨_, rfl, (RunRecord.files foreign elsewhere).fromSlice_toVecPretty hfits rfl⟩

theorem ClaimedJob.storable_sample : Sample.run.Filed ∧
    ∃ text, Sample.files.toVecPretty Sample.claimed = .ok text ∧
      Sample.files.fromSlice text = .ok Sample.claimed := by
  obtain ⟨_, hfiled, _, hkept⟩ :=
    ClaimedJob.storable Sample.agrees rfl Sample.accepts_response
  exact ⟨hfiled, hkept⟩

end PackageHarness
