/-
# PackageHarness.Conduct.Upkeep — invariants of the records that are written.

A record is written by code that has created it or read it before. `upkeep ok` is the discipline of
such code: whatever it writes is `ok`, provided that whatever it reads is. The surroundings are
otherwise free to answer anything, so what holds of a worker under this discipline holds wherever a
save fails, whatever is reloaded, and at every point at which the process can die.
-/
import PackageHarness.Conduct.Idling
import PackageHarness.Conduct.Settling

namespace PackageHarness

open Interaction Routine

variable (ok : RunRecord → Prop)

/-- A record that the request writes is `ok`. -/
def RunnerRequest.Writes : RunnerRequest → Prop
  | save _ record => ok record
  | _ => True

/-- A record that the answer brings is `ok`. -/
def RunnerRequest.Reads : (request : RunnerRequest) → request.Answer → Prop
  | get _, answer => ∀ record, answer = .ok (some record) → ok record
  | _, _ => True

namespace WorkerRequest

def Writes : WorkerRequest → Prop
  | runner _ request => request.Writes ok
  | create record => ok record
  | _ => True

def Reads : (request : WorkerRequest) → request.Answer → Prop
  | runner _ request, answer => request.Reads ok answer
  | loadAll, answer => ∀ records, answer = .ok records → ∀ record ∈ records, ok record
  | _, _ => True

end WorkerRequest

/-- What is written is `ok`, if what is read is. -/
def upkeep : Discipline WorkerRequest WorkerRequest.Answer Unit where
  answer := fun _ request answer _ => request.Reads ok answer
  drift := fun _ _ _ => False
  guard := fun _ request => request.Writes ok
  inv := fun _ => True
  inv_answer := fun _ _ _ => trivial
  inv_drift := fun _ _ => trivial

/-- The same for code that runs on behalf of a run. -/
abbrev runnerUpkeep (run : RunId) : Discipline RunnerRequest RunnerRequest.Answer Unit :=
  (upkeep ok).comap (.runner run) fun _ answer => answer

section Rules

variable {ok} {run : RunId} {σ ε α : Type} {F : ε → σ → Unit → Prop}

theorem Safe.kept {Q : α → Unit → Prop} {request : WorkerRequest}
    {next : request.Answer → Worker α} (hwrites : request.Writes ok)
    (hnext : ∀ answer, request.Reads ok answer → Safe (upkeep ok) Q (next answer) ()) :
    Safe (upkeep ok) Q (.request request next) () :=
  Safe.request_still (fun _ _ hdrift => hdrift.elim) trivial hwrites
    fun answer _ hreads _ => hnext answer hreads

theorem Meets.kept {P : σ → Prop} {e : WorkerRequest} {Q : e.Answer → σ → Prop}
    (hwrites : ∀ s, P s → e.Writes ok)
    (hreads : ∀ answer s, e.Reads ok answer → P s → Q answer s) :
    Meets (upkeep ok) (fun s _ => P s) (.run (Worker.ask e)) (fun answer s _ => Q answer s) F :=
  Meets.run fun s _ _ h => Safe.kept (hwrites s h) fun answer hanswer =>
    Safe.pure trivial (hreads answer s hanswer h)

theorem Meets.keptRunner {P : σ → Prop} {request : RunnerRequest} {Q : request.Answer → σ → Prop}
    (hwrites : ∀ s, P s → request.Writes ok)
    (hreads : ∀ answer s, request.Reads ok answer → P s → Q answer s) :
    Meets (runnerUpkeep ok run) (fun s _ => P s) (.run (Runner.ask request))
      (fun answer s _ => Q answer s) F := by
  refine Meets.run fun s _ _ h => ?_
  refine Safe.request_still (fun _ _ hdrift => hdrift.elim) trivial (hwrites s h) ?_
  rintro answer after ⟨_, rfl, hanswer⟩ _
  exact Safe.pure trivial (hreads _ s hanswer h)

/-- Code that writes no record. -/
theorem Meets.unwritten {P : σ → Prop} {allowed : RunnerRequest → Prop} {post : α → Prop}
    {p : Runner α} (hp : Within allowed post p)
    (hallowed : ∀ request, allowed request → request.Writes ok) :
    Meets (runnerUpkeep ok run) (fun s _ => P s) (.run p) (fun _ s _ => P s) F := by
  refine Meets.run fun s _ _ h => ?_
  refine (hp.safe (fun _ => True) trivial trivial ?_ ?_ ?_).mono fun _ _ _ _ => h
  · exact fun request _ hrequest _ _ => hallowed request hrequest
  · exact fun _ _ _ _ _ _ _ _ => trivial
  · exact fun _ _ _ _ _ _ _ => trivial

theorem writes_of_samples {request : RunnerRequest} (h : Runner.Samples request) :
    request.Writes ok := by
  cases request with
  | save site record => exact h.elim
  | _ => trivial

theorem writes_of_reconciles {request : RunnerRequest} {dnpName : DnpName}
    {plan : TargetRecoveryPlan} (h : Runner.Reconciles dnpName plan request) :
    request.Writes ok := by
  cases request with
  | save site record => exact h.elim
  | _ => trivial

/-- The worker without a job writes nothing. -/
theorem upkeep_admitsIdling : Worker.AdmitsIdling (upkeep ok) := by
  intro request _ hidles _
  cases request with
  | runner run asked => exact hidles.elim
  | create record => exact hidles.elim
  | _ => trivial

end Rules

end PackageHarness
