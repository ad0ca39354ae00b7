/-
# PackageHarness.Conduct.Rehearsal — executions against surroundings that always answer alike.

A `Scenario` answers each request of the controller in the same way every time, so one execution is
a computation and its conversation can be looked at.
-/
import PackageHarness.Conduct.Execution
import PackageHarness.System.Scenario

namespace PackageHarness

open Interaction

/-- What has been persisted last, once the execution has ended. -/
def Trace.final : Trace → Option RunRecord
  | _ :: ⟨.save (.phase .finished) record, .ok ()⟩ :: _ => some record
  | _ => none

theorem Trace.persisted_of_final {t : Trace} {record : RunRecord} (h : t.final = some record) :
    t.Persisted record := by
  unfold final at h
  split at h
  · cases h
    exact ⟨_, _, rfl⟩
  · cases h

def RunnerRequest.isCall (call : PmCall) : RunnerRequest → Bool
  | pm asked => asked = call
  | _ => false

namespace Sample

def job : RunRecord := .claimed request "claim-token-1" 0

/-- Where the execution of the sample job stands after some time. -/
def rehearse (reply : (request : RunnerRequest) → request.Answer) :
    Runner (Except ControllerError Unit) × Trace :=
  Program.replay (answering reply) 400
    (Runner.execute ext deployment.runner run, [])

/-- The scenario's answers, for a store that has the sample job. -/
def answers (scenario : Scenario) (request : RunnerRequest) : request.Answer :=
  ((⟨RunStore.empty.write job, fun _ => none⟩ : Ledger).reply scenario run request).1

/-- Every call succeeds but the candidate's installation, which ends with `update`; previews resolve
to `version`, and the installed package reports `reported`. -/
def cooperative (version reported : Option String) (update : Except PackageManagerError Unit) :
    (call : PmCall) → Except PackageManagerError call.Reply
  | .verifyTools => .ok ⟨[], []⟩
  | .listPackages _ => .ok []
  | .previewInstall _ _ => .ok ⟨none, version, none, none, false, ""⟩
  | .getPackageDetails dnpName =>
      .ok ⟨dnpName, reported, none, [⟨"main", none, some "running", true, none, none⟩]⟩
  | .getPackageLogs _ _ => .ok ⟨[]⟩
  | .installPackage _ _ | .installPackageBypassingSignature _ _ | .removePackage _ _ => .ok ()
  | .updatePackage _ _ => update

/-- The sample job against that package manager. -/
def cooperates (version reported : Option String) (update : Except PackageManagerError Unit) :
    Scenario :=
  { installFails (fun _ _ => false) with packageManager := cooperative version reported update }

/-- The execution has returned `Ok`, and what it has persisted passes the test. -/
def concludes (c : Runner (Except ControllerError Unit) × Trace) (test : RunRecord → Bool) :
    Bool :=
  (c.1.value.any fun outcome => outcome.isOk) && c.2.final.any test

/-- A rehearsed execution is an execution. -/
theorem executes_rehearsed {reply : (request : RunnerRequest) → request.Answer}
    {test : RunRecord → Bool} (hjob : reply (.get run) = .ok (some job))
    (h : concludes (rehearse reply) test = true) :
    Executes ext deployment.runner run job (.ok ()) (rehearse reply).2 ∧
      ∃ final, (rehearse reply).2.Persisted final ∧ test final = true := by
  obtain ⟨hreturned, hfinal⟩ := Bool.and_eq_true_iff.mp h
  obtain ⟨outcome, hvalue, hok⟩ := Option.any_eq_true _ _ |>.mp hreturned
  obtain ⟨final, hrecord, htest⟩ := Option.any_eq_true _ _ |>.mp hfinal
  have hruns := Program.reaches_replay (answering_admitted reply) 400
    (Runner.execute ext deployment.runner run, [])
  refine ⟨⟨RunRecord.claimed_fresh .., ?_, ?_⟩, final, Trace.persisted_of_final hrecord, htest⟩
  · -- the first exchange is the look into the store
    rw [← hjob]
    exact (Program.reaches_replay (answering_admitted reply) 399
      (_, [⟨.get run, reply (.get run)⟩])).suffix
  · have hended : (rehearse reply).1 = .pure (.ok ()) := by
      rw [Program.value_eq_some hvalue]
      rcases outcome with error | _
      · cases hok
      · rfl
    rw [← hended]
    exact hruns

/-- Whatever is asked in a rehearsal is answered by the reply to it. -/
theorem mem_rehearsed {reply : (request : RunnerRequest) → request.Answer}
    {x : Exchange RunnerRequest RunnerRequest.Answer} (hx : x ∈ (rehearse reply).2) :
    x = ⟨x.request, reply x.request⟩ :=
  (mem_replay_answering 400 _ hx).resolve_left List.not_mem_nil

theorem called_of_asks {reply : (request : RunnerRequest) → request.Answer} {call : PmCall}
    (h : ((rehearse reply).2.any fun x => x.request.isCall call) = true) :
    (rehearse reply).2.Called call (reply (.pm call)) := by
  obtain ⟨x, hx, hcall⟩ := List.any_eq_true.mp h
  have hreply := mem_rehearsed hx
  obtain ⟨asked, answer⟩ := x
  cases asked with
  | pm asked =>
      have hasked : asked = call := by simpa [RunnerRequest.isCall] using hcall
      subst hasked
      rw [hreply] at hx
      exact hx
  | _ => cases hcall

theorem uninterrupted_rehearsed {reply : (request : RunnerRequest) → request.Answer}
    (hcontrol : reply .control = .proceed) : (rehearse reply).2.Uninterrupted := by
  intro signal hmem
  have hreply := mem_rehearsed hmem
  simp only [Exchange.mk.injEq, heq_eq_eq, true_and] at hreply
  exact hreply.trans hcontrol

end Sample

end PackageHarness
