/-
# PackageHarness.Coordinator.Claim — the coordinator's answer to a claim, and when it is a job.

The response of `v1/package-harness/jobs/claim` is checked before the worker sees it: the token is
opaque but bounded, and the request is checked as any other.
-/
import PackageHarness.Coordinator.Protocol
import PackageHarness.Model.Job

namespace PackageHarness

open Redaction

structure ClaimResponse where
  schemaVersion : UInt8
  jobId : String
  claimToken : String
  source : SourceDto
  package : PackageRequestDto

def ClaimResponse.request (response : ClaimResponse) : RunRequestDto where
  schemaVersion := response.schemaVersion
  runId := response.jobId
  source := response.source
  package := response.package

namespace ClaimedJob

def tryFrom (types : DappnodeTypes) (response : ClaimResponse) : Except String ClaimedJob :=
  if response.schemaVersion != 1 then .error "claim schemaVersion must be 1"
  else if response.claimToken.isEmpty || decide (4096 < response.claimToken.utf8ByteSize)
      || response.claimToken.toList.any isWhitespace then
    .error "claimToken must be a non-empty opaque token up to 4096 bytes"
  else do
    let request ← (RunRequest.tryFrom types response.request).mapError DomainError.toText
    return ⟨request, response.claimToken⟩

/-- A token that can be sent back as it came. -/
structure OpaqueToken (claimToken : String) : Prop where
  nonempty : claimToken ≠ ""
  bounded : claimToken.utf8ByteSize ≤ 4096
  unspaced : ∀ c ∈ claimToken.toList, isWhitespace c = false

theorem tryFrom_eq_ok {types : DappnodeTypes} {response : ClaimResponse} {job : ClaimedJob}
    (h : tryFrom types response = .ok job) :
    OpaqueToken job.claimToken ∧ RunId.parse response.jobId = .ok job.request.runId ∧
      job.request.Accepted types := by
  rw [tryFrom] at h
  split at h
  · cases h
  · split at h
    · cases h
    · next htoken =>
        obtain ⟨request, hrequest, hjob⟩ := bind_eq_ok.mp h
        cases hjob
        simp only [Bool.or_eq_true, not_or, decide_eq_true_eq, Nat.not_lt, Bool.not_eq_true]
          at htoken
        obtain ⟨⟨hempty, hsize⟩, hspace⟩ := htoken
        have hbounded : OpaqueToken response.claimToken := by
          refine ⟨?_, hsize, fun c hc => ?_⟩
          · rintro heq
            rw [heq] at hempty
            cases hempty
          · exact Bool.eq_false_iff.mpr fun hspaced =>
              Bool.eq_false_iff.mp hspace (List.any_eq_true.mpr ⟨c, hc, hspaced⟩)
        exact ⟨hbounded, RunRequest.tryFrom_eq_ok (mapError_eq_ok hrequest)⟩

end ClaimedJob

end PackageHarness
