/-
# PackageHarness.Conduct.Trace — what can be read off the conversation of one execution.

A `Trace` is what the controller asked and was answered, the latest exchange first. `Conducted` is
the obligation of each of its requests in view of the trace so far: the algorithm is started once,
the candidate is installed once, and a mutating call names a package that the inventory read before
does not list as a core package.
-/
import PackageHarness.Interaction.Transcript
import PackageHarness.Runner.Controller

namespace PackageHarness

open Interaction

abbrev Trace := Transcript RunnerRequest RunnerRequest.Answer

/-! ## Kinds of requests -/

namespace RunnerRequest

def starts : RunnerRequest → Prop
  | enter .runAlgorithm => True
  | _ => False

def updates : RunnerRequest → Prop
  | pm (.updatePackage _ _) => True
  | _ => False

def bypasses : RunnerRequest → Prop
  | pm (.installPackageBypassingSignature _ _) => True
  | _ => False

end RunnerRequest

/-! ## The inventory that mutations go by -/

/-- The package is not listed as a core package. -/
def NotCore (packages : List PackageSummary) (dnpName : DnpName) : Prop :=
  ∀ package ∈ packages, package.dnpName = dnpName → package.isCore = false

/-- The inventory that an execution or a recovery read last before its first mutating call, and
whether it has made that call. -/
structure Watch where
  inventory : Option (List PackageSummary) := none
  mutated : Bool := false

namespace Watch

def note (watch : Watch) (packages : List PackageSummary) : Watch :=
  if watch.mutated then watch else { watch with inventory := some packages }

def observe (watch : Watch) : (request : RunnerRequest) → request.Answer → Watch
  -- an execution begins with the algorithm, a recovery with its own inventory
  | .enter .runAlgorithm, _ => {}
  | .pm (.listPackages .restartCheck), answer =>
      match answer with
      | .ok packages => { inventory := some packages }
      | .error _ => {}
  | .pm (.listPackages _), answer =>
      match answer with
      | .ok packages => watch.note packages
      | .error _ => watch
  | .listPackagesWithin _, answer =>
      match answer with
      | some (.ok packages) => watch.note packages
      | _ => watch
  | .pm call, _ => { watch with mutated := watch.mutated || call.mutating }
  | _, _ => watch

/-- The inventory that mutations go by does not list the package as a core package. -/
def Clears (watch : Watch) (dnpName : DnpName) : Prop :=
  ∃ packages, watch.inventory = some packages ∧ NotCore packages dnpName

/-- Requests that do not touch the watch. -/
def Ignores : RunnerRequest → Prop
  | .pm call => call.mutates = none ∧ ∀ purpose, call ≠ .listPackages purpose
  | .listPackagesWithin _ | .enter _ => False
  | _ => True

theorem observe_of_ignores {watch : Watch} {request : RunnerRequest} {answer : request.Answer}
    (h : Ignores request) : watch.observe request answer = watch := by
  cases request with
  | pm call =>
      obtain ⟨hmutates, hlists⟩ := h
      cases call with
      | listPackages purpose => exact absurd rfl (hlists purpose)
      | verifyTools => simp [observe, PmCall.mutating, PmCall.mutates]
      | getPackageDetails dnpName => simp [observe, PmCall.mutating, PmCall.mutates]
      | getPackageLogs dnpName tail => simp [observe, PmCall.mutating, PmCall.mutates]
      | previewInstall dnpName version => simp [observe, PmCall.mutating, PmCall.mutates]
      | _ => cases hmutates
  | listPackagesWithin remaining => exact h.elim
  | enter point => exact h.elim
  | _ => rfl

/-- Once the target has been mutated, later inventories do not count. -/
theorem observe_of_reconciles {watch : Watch} {request : RunnerRequest} {answer : request.Answer}
    {dnpName : DnpName} {plan : TargetRecoveryPlan}
    (h : Runner.Reconciles dnpName plan request) (hmutated : watch.mutated = true) :
    watch.observe request answer = watch := by
  obtain ⟨inventory, mutated⟩ := watch
  cases hmutated
  cases request with
  | pm call =>
      cases call with
      | listPackages purpose =>
          rcases h with rfl | rfl <;> rcases answer with error | packages <;> rfl
      | removePackage target deleteVolumes => simp [observe]
      | installPackage target version => simp [observe]
      | _ => exact h.elim
  | listPackagesWithin remaining => rcases answer with _ | (error | packages) <;> rfl
  | instant => rfl
  | sleep duration => rfl
  | _ => exact h.elim

theorem observe_of_mutates {watch : Watch} {call : PmCall}
    {answer : Except PackageManagerError call.Reply} {target : DnpName}
    (h : call.mutates = some target) :
    watch.observe (.pm call) answer = { watch with mutated := true } := by
  cases call with
  | installPackage dnpName version => simp [observe, PmCall.mutating, PmCall.mutates]
  | installPackageBypassingSignature dnpName version =>
      simp [observe, PmCall.mutating, PmCall.mutates]
  | updatePackage dnpName version => simp [observe, PmCall.mutating, PmCall.mutates]
  | removePackage dnpName deleteVolumes => simp [observe, PmCall.mutating, PmCall.mutates]
  | _ => cases h

end Watch

/-! ## Traces -/

namespace Trace

/-- The package manager was called and gave this answer. -/
def Called (t : Trace) (call : PmCall) (answer : Except PackageManagerError call.Reply) : Prop :=
  ⟨.pm call, answer⟩ ∈ t

/-- The record was saved, and the save reported success. -/
def Saved (t : Trace) (site : SaveSite) (record : RunRecord) : Prop :=
  ⟨.save site record, .ok ()⟩ ∈ t

/-- The candidate's installation failed with this error. -/
def Refused (t : Trace) (error : PackageManagerError) : Prop :=
  ∃ dnpName ref, t.Called (.updatePackage dnpName ref) (.error error)

/-- The candidate's installation has not failed. -/
def Unrefused (t : Trace) : Prop := ∀ error, ¬ t.Refused error

def watch (t : Trace) : Watch := t.foldr (fun x watch => watch.observe x.request x.answer) {}

/-- The package may be mutated: it is not the harness, and the inventory read before by the running
algorithm does not list it as a core package. -/
structure Cleared (config : RunnerConfig) (t : Trace) (target : DnpName) : Prop where
  foreign : target.value ≠ config.harnessDnpName
  started : t.Mentions RunnerRequest.starts
  inspected : t.watch.Clears target

/-- The obligation of a request of the controller; the analyzer is asked only while `comparing`. -/
def Conducted (config : RunnerConfig) (comparing : Prop) (t : Trace) : RunnerRequest → Prop
  | .enter .runAlgorithm => ¬ t.Mentions RunnerRequest.starts
  | .pm call =>
      (∀ target, call.mutates = some target → t.Cleared config target) ∧
        (RunnerRequest.updates (.pm call) → ¬ t.Mentions RunnerRequest.updates)
  | .analyze _ => comparing
  | _ => True

variable {config : RunnerConfig} {t : Trace} {target : DnpName}

theorem refused_cons {x : Exchange RunnerRequest RunnerRequest.Answer}
    {error : PackageManagerError} :
    Refused (x :: t) error ↔ Refused [x] error ∨ t.Refused error := by
  constructor
  · rintro ⟨dnpName, ref, hcalled⟩
    rcases List.mem_cons.mp hcalled with heq | hearlier
    · exact Or.inl ⟨dnpName, ref, List.mem_singleton.mpr heq⟩
    · exact Or.inr ⟨dnpName, ref, hearlier⟩
  · rintro (⟨dnpName, ref, hcalled⟩ | ⟨dnpName, ref, hcalled⟩)
    · exact ⟨dnpName, ref, List.mem_cons.mpr (Or.inl (List.mem_singleton.mp hcalled))⟩
    · exact ⟨dnpName, ref, List.mem_cons_of_mem _ hcalled⟩

theorem Unrefused.more (h : t.Unrefused) {x : Exchange RunnerRequest RunnerRequest.Answer}
    (hx : Unrefused [x]) : Unrefused (x :: t) :=
  fun error hrefused => (refused_cons.mp hrefused).elim (hx error) (h error)

/-- Only the installation of the candidate can be refused. -/
theorem unrefused_of_not_updates {request : RunnerRequest} {answer : request.Answer}
    (h : ¬ request.updates) : Unrefused [⟨request, answer⟩] := by
  rintro error ⟨dnpName, ref, hcalled⟩
  cases List.mem_singleton.mp hcalled
  exact h trivial

/-- What was read stays read, whatever comes next. -/
theorem Cleared.more (h : Cleared config t target) {x : Exchange RunnerRequest RunnerRequest.Answer}
    (hinventory : (watch (x :: t)).inventory = t.watch.inventory) :
    Cleared config (x :: t) target where
  foreign := h.foreign
  started := Transcript.mentions_cons.mpr (Or.inr h.started)
  inspected := by
    obtain ⟨packages, hpackages, hnotCore⟩ := h.inspected
    exact ⟨packages, hinventory.trans hpackages, hnotCore⟩

theorem Cleared.ignore (h : Cleared config t target) {request : RunnerRequest}
    {answer : request.Answer} (hignores : Watch.Ignores request) :
    Cleared config (⟨request, answer⟩ :: t) target := by
  have hwatch : watch (⟨request, answer⟩ :: t) = t.watch := Watch.observe_of_ignores hignores
  exact h.more (congrArg Watch.inventory hwatch)

theorem Cleared.mutate (h : Cleared config t target) {call : PmCall}
    {answer : Except PackageManagerError call.Reply} {mutated : DnpName}
    (hmutates : call.mutates = some mutated) :
    Cleared config (⟨.pm call, answer⟩ :: t) target := by
  have hwatch : watch (⟨.pm call, answer⟩ :: t) = { t.watch with mutated := true } :=
    Watch.observe_of_mutates hmutates
  have hinventory := congrArg Watch.inventory hwatch
  exact h.more hinventory

end Trace

/-! ## Early exits -/

/-- The verdict of a run whose algorithm ended on this error of the package manager. -/
def blame : PmCall → PackageManagerError → Verdict
  | .updatePackage _ _, error =>
      if error.isTransientMutationFailure then .infrastructureError else .failed
  | .installPackage _ _, .requiredSetup | .installPackageBypassingSignature _ _, .requiredSetup =>
      .inconclusive
  | _, _ => .infrastructureError

/-- The verdict of a run whose algorithm ended early, right after this answer. -/
def exitVerdict : (request : RunnerRequest) → request.Answer → Verdict
  | .pm call, answer =>
      match answer with
      | .ok _ => .infrastructureError
      | .error error => blame call error
  | .control, answer => if answer = .cancelRequested then .inconclusive else .infrastructureError
  | _, _ => .infrastructureError

end PackageHarness
