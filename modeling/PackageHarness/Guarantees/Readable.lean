/-
# PackageHarness.Guarantees.Readable — stored and sent texts can be read.
-/
import PackageHarness.Coordinator.Protocol
import PackageHarness.Storage.Rehearsal

namespace PackageHarness

open Serde

namespace RunRecord

variable (foreign : ForeignTexts) (elsewhere : String → Except String RunRecord)

/-- A record that can be stored is read as what serialization keeps of it. That is a record that can
be stored too, as the same text, and is read as itself. -/
theorem files_round_trip (record : RunRecord) (hfits : (RunRecord.format foreign).Fits record) :
    ∃ text, (files foreign elsewhere).toVecPretty record = .ok text ∧
      (files foreign elsewhere).fromSlice text = .ok record.persisted ∧
      (RunRecord.format foreign).Fits record.persisted ∧
      (files foreign elsewhere).toVecPretty record.persisted = .ok text := by
  have hread := (files foreign elsewhere).fromSlice_toVecPretty hfits rfl
  have hsound := (RunRecord.format foreign).sound ((RunRecord.format foreign).read_write hfits)
  have hwrite := (RunRecord.format foreign).write_seen record
  rw [format_seen] at hsound hwrite
  refine ⟨_, rfl, hread, hsound.1, ?_⟩
  show Except.ok (Json.renderPretty 0 ((RunRecord.format foreign).write record.persisted)) = _
  rw [hwrite]

theorem files_round_trip_sample : ∃ text, Sample.files.toVecPretty Sample.claimed = .ok text ∧
    Sample.files.fromSlice text = .ok Sample.claimed.persisted ∧
    Sample.files.toVecPretty Sample.claimed.persisted = .ok text := by
  obtain ⟨text, hstored, hread, _, hagain⟩ :=
    files_round_trip Sample.foreign _ Sample.claimed Sample.fits_claimed
  exact ⟨text, hstored, hread, hagain⟩

end RunRecord

/-- The numbers of a result are in the ranges of their types. -/
def CompletionOutcome.Fits : CompletionOutcome → Prop
  | .result outcome => HarnessResult.format.Fits outcome
  | .workerError _ => True

namespace CompleteRequest

/-- Different completions are sent as different texts. -/
theorem body_ne {request other : CompleteRequest} (hrequest : request.outcome.Fits)
    (hother : other.outcome.Fits) (hne : request ≠ other) : request.body ≠ other.body := by
  intro h
  refine hne ?_
  have hjson : request.toJson = other.toJson := Json.render_injective h
  obtain ⟨schemaVersion, workerId, claimToken, outcome⟩ := request
  obtain ⟨schemaVersion', workerId', claimToken', outcome'⟩ := other
  simp only [toJson, Json.object.injEq, List.cons.injEq, Prod.mk.injEq, Json.number.injEq,
    Json.string.injEq, true_and, and_true] at hjson
  obtain ⟨rfl, rfl, rfl, houtcome⟩ := hjson
  have hsame : outcome = outcome' := by
    cases outcome with
    | result result =>
        cases outcome' with
        | result result' =>
            have hresult : result.toJson = result'.toJson := by
              simpa [CompletionOutcome.toJson] using houtcome
            rw [← HarnessResult.format_write, ← HarnessResult.format_write] at hresult
            rw [Format.write_injective HarnessResult.format_seen hrequest hother hresult]
        | workerError error => simp [CompletionOutcome.toJson] at houtcome
    | workerError error =>
        cases outcome' with
        | result result => simp [CompletionOutcome.toJson] at houtcome
        | workerError error' =>
            obtain ⟨hcode, hsummary, hstatus⟩ : error.code.toJson = error'.code.toJson ∧
                error.summary = error'.summary ∧
                error.cleanupStatus.toJson = error'.cleanupStatus.toJson := by
              simpa [CompletionOutcome.toJson] using houtcome
            have hfields : WorkerError.format.write error = WorkerError.format.write error' := by
              show Json.object [("code", error.code.toJson), ("summary", .string error.summary),
                ("cleanupStatus", error.cleanupStatus.toJson)] = _
              rw [hcode, hsummary, hstatus]
              rfl
            rw [Format.write_injective WorkerError.format_seen ⟨trivial, trivial, trivial⟩
              ⟨trivial, trivial, trivial⟩ hfields]
  rw [hsame]

end CompleteRequest

namespace Sample

/-- A side that was stable after so many samples. -/
def stableSide (samples : Nat) : ResultSide where
  install := ⟨.passed, 41000⟩
  hardCheck := ⟨true, [], 1, samples⟩
  containers := []
  logCollection := ⟨.passed, 1⟩

/-- A run whose candidate was stable after so many samples. -/
def outcome (samples : Nat) : HarnessResult where
  schemaVersion := 1
  runId := "run-1"
  source := ⟨"dappnode/example", 7, "0123456789abcdef"⟩
  package := ⟨"example.dnp.dappnode.eth", none, some "0.1.0", "0.2.0", some "0.2.0"⟩
  execution := ⟨.completed, "1970-01-01T00:00:00Z", "1970-01-01T00:05:00Z", 300000⟩
  verdict := .passed
  reasonCode := .candidateContainersStable
  summary := "Candidate containers stayed stable."
  baseline := stableSide 3
  candidate := stableSide samples
  comparison := ⟨true, true, ["example"], ["example"], [], [], some "0.1.0", some "0.2.0", 15000, 15000,
    [], [], true, true, []⟩
  logAnalysis := ⟨.heuristic, .clean, "", ⟨.clean, ""⟩, ⟨.clean, ""⟩, [], [], []⟩
  cleanup := ⟨.passed, [], none⟩
  errors := []

theorem fits_stableSide {samples : Nat} (h : samples < 2 ^ 64) :
    ResultSide.format.Fits (stableSide samples) :=
  ⟨⟨trivial, (by decide : 41000 < 2 ^ 64)⟩,
    ⟨trivial, Format.fits_nil, (by decide : 1 < 2 ^ 64), h⟩, Format.fits_nil,
    ⟨trivial, (by decide : 1 < 2 ^ 64)⟩⟩

theorem fits_outcome {samples : Nat} (h : samples < 2 ^ 64) :
    HarnessResult.format.Fits (outcome samples) := by
  have htexts : ∀ texts : List String, Format.string.array.Fits texts := fun _ _ _ => trivial
  have htext : ∀ name text leftOut, (Members.nullable name Format.string leftOut).Fits (some text) :=
    fun _ _ _ => Members.fits_some trivial
  have hpackage : ResultPackage.format.Fits (outcome samples).package :=
    ⟨trivial, Members.fits_none, htext _ _ _, trivial, htext _ _ _⟩
  have hcomparison : ComparisonEvidence.format.Fits (outcome samples).comparison :=
    ⟨trivial, trivial, htexts _, htexts _, htexts _, htexts _, htext _ _ _, htext _ _ _,
      (by decide : 15000 < 2 ^ 64), (by decide : 15000 < 2 ^ 64), htexts _, htexts _, trivial, trivial,
      htexts _⟩
  have hanalysis : LogAnalysisResult.format.Fits (outcome samples).logAnalysis :=
    ⟨trivial, trivial, trivial, ⟨trivial, trivial⟩, ⟨trivial, trivial⟩, Format.fits_nil, htexts _,
      Format.fits_nil⟩
  exact ⟨(by decide : 1 < 2 ^ 8), trivial, ⟨trivial, (by decide : 7 < 2 ^ 64), trivial⟩, hpackage,
    ⟨trivial, trivial, trivial, (by decide : 300000 < 2 ^ 64)⟩, trivial, trivial, trivial,
    fits_stableSide (by decide), fits_stableSide h, hcomparison, hanalysis,
    ⟨trivial, htexts _, Members.fits_none⟩, Format.fits_nil⟩

end Sample

/-- One more stable sample makes another text. -/
theorem CompleteRequest.body_ne_sample :
    body ⟨1, "worker-1", "token", .result (Sample.outcome 3)⟩ ≠
      body ⟨1, "worker-1", "token", .result (Sample.outcome 4)⟩ := by
  refine body_ne (Sample.fits_outcome (by decide)) (Sample.fits_outcome (by decide)) fun hsame => ?_
  have hresult : Sample.outcome 3 = Sample.outcome 4 := by
    injection (congrArg CompleteRequest.outcome hsame)
  have hsamples : 3 = 4 := congrArg (fun result => result.candidate.hardCheck.stableSamples) hresult
  omega

end PackageHarness
