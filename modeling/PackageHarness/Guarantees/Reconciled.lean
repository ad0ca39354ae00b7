/-
# PackageHarness.Guarantees.Reconciled — what a passed reconciliation says of the final inventory.

The status of a reconciliation comes from the plan-specific part, the recorded inventory from one
more listing. That listing is held against the initial inventory, so that nothing unexpected is in
it, the target of a removal included. Whether the target of a restoration is still in it is not
looked at again: the report describes the inventory unless the target vanishes between the two.
-/
import PackageHarness.Conduct.Rehearsal

namespace PackageHarness

open Interaction Runner

variable {dnpName : DnpName} {plan : TargetRecoveryPlan} {timeout : Duration}
  {initial final : List PackageSummary} {cleanup : CleanupResult}
  {t : Transcript RunnerRequest RunnerRequest.Answer}

def PackageSummary.names (packages : List PackageSummary) : List DnpName :=
  packages.map (·.dnpName)

/-- The report describes the inventory that it comes with. -/
structure Describes (dnpName : DnpName) (plan : TargetRecoveryPlan)
    (initial : List PackageSummary) (cleanup : CleanupResult) (final : List PackageSummary) :
    Prop where
  known : cleanup.status = .passed →
    ∀ package ∈ final, package.dnpName ∈ PackageSummary.names initial
  restored : cleanup.status = .passed → plan = .restoreLatest →
    dnpName ∈ PackageSummary.names final
  removed : cleanup.status = .passed → plan = .remove → dnpName ∉ PackageSummary.names final
  clean : cleanup.status = .passed → cleanup.leftoverPackages = []
  leftovers : cleanup.leftoverPackages =
    (final.filter fun package => package.dnpName ∉ PackageSummary.names initial).map
      (·.dnpName.value)

/-- The last listing of the conversation, the one that is recorded, has failed. -/
def Unread (t : Transcript RunnerRequest RunnerRequest.Answer) : Prop :=
  ∃ error before, t = ⟨.pm (.listPackages .finalInventory), .error error⟩ :: before

/-- The reinstalled target was listed. -/
def Verified (dnpName : DnpName) (t : Transcript RunnerRequest RunnerRequest.Answer) : Prop :=
  ∃ packages before, t = ⟨.pm (.listPackages .restoreVerification), .ok packages⟩ :: before ∧
    dnpName ∈ PackageSummary.names packages

/-- The target was listed when its restoration was verified, and is missing right afterwards from a
final inventory without unexpected packages. -/
def Vanished (dnpName : DnpName) (plan : TargetRecoveryPlan) (initial : List PackageSummary)
    (t : Transcript RunnerRequest RunnerRequest.Answer) : Prop :=
  plan = .restoreLatest ∧ ∃ final before,
    t = ⟨.pm (.listPackages .finalInventory), .ok final⟩ :: before ∧ Verified dnpName before ∧
    (∀ package ∈ final, package.dnpName ∈ PackageSummary.names initial) ∧
    dnpName ∉ PackageSummary.names final

theorem lists_iff {packages : List PackageSummary} :
    lists packages dnpName = true ↔ dnpName ∈ PackageSummary.names packages := by
  simp [lists, PackageSummary.names]

theorem leftoverPackages_eq : leftoverPackages initial final =
    (final.filter fun package => package.dnpName ∉ PackageSummary.names initial).map
      (·.dnpName.value) := by
  unfold leftoverPackages PackageSummary.names
  congr 1
  refine List.filter_congr ?_
  intro package _
  simp only [List.contains_eq_mem, decide_not]

theorem leftoverPackages_eq_nil : leftoverPackages initial final = [] ↔
    ∀ package ∈ final, package.dnpName ∈ PackageSummary.names initial := by
  rw [leftoverPackages_eq, List.map_eq_nil_iff, List.filter_eq_nil_iff]
  simp

/-- A restoration passes exactly if its last exchange lists the target. -/
theorem restoreLatestTarget_verified :
    Safe (recorded fun _ _ => True) (fun cleanup t => cleanup.status = .passed ↔ Verified dnpName t)
      (restoreLatestTarget dnpName) t := by
  have hreinstall : ∀ t, Safe (recorded fun _ _ => True)
      (fun cleanup t => cleanup.status = .passed ↔ Verified dnpName t)
      (restoreLatestTarget.reinstall dnpName) t := by
    intro t
    refine Safe.exchange trivial fun installed => ?_
    cases installed with
    | error error =>
        refine Safe.pure trivial ⟨nofun, ?_⟩
        rintro ⟨packages, before, hlast, _⟩
        cases hlast
    | ok installed =>
        refine Safe.exchange trivial fun listed => ?_
        cases listed with
        | error error =>
            refine Safe.pure trivial ⟨nofun, ?_⟩
            rintro ⟨packages, before, hlast, _⟩
            cases hlast
        | ok packages =>
            refine Safe.pure trivial ?_
            cases hlists : lists packages dnpName with
            | true => exact ⟨fun _ => ⟨packages, _, rfl, lists_iff.mp hlists⟩, fun _ => rfl⟩
            | false =>
                refine ⟨nofun, ?_⟩
                rintro ⟨packages, before, hlast, hlisted⟩
                cases hlast
                rw [lists_iff.mpr hlisted] at hlists
                cases hlists
  refine Safe.exchange trivial fun removed => ?_
  cases removed with
  | ok removed => exact hreinstall _
  | error error =>
      show Safe _ _ (if _ then _ else _) _
      split
      · exact hreinstall _
      · refine Safe.pure trivial ⟨nofun, ?_⟩
        rintro ⟨packages, before, hlast, _⟩
        cases hlast

/-- A reconciliation applies its plan, and then lists the inventory it reports. -/
theorem reconcileTarget_parts
    (h : Reaches recording (reconcileTarget dnpName plan initial timeout, [])
      (.pure (cleanup, final), t)) :
    ∃ applied before, Reaches recording (applyPlan dnpName timeout plan, []) (.pure applied, before) ∧
      applied.Applied ∧
      ((∃ error, t = ⟨.pm (.listPackages .finalInventory), .error error⟩ :: before ∧
          cleanup = withoutInventory applied error ∧ final = []) ∨
        t = ⟨.pm (.listPackages .finalInventory), .ok final⟩ :: before ∧
          cleanup = withInventory applied initial final) := by
  obtain ⟨applied, before, happlied, hlisting⟩ := Reaches.of_bind_pure h
  have hbare : applied.Applied := by
    have hsafe : Within (Reconciles dnpName plan) CleanupResult.Applied
        (applyPlan dnpName timeout plan) := applyPlan_within
    have hfree : Reaches (anything (Reconciles dnpName plan)).toSemantics
        (applyPlan dnpName timeout plan, ()) (.pure applied, ()) :=
      Reaches.project (fun _ => ()) (fun _ _ _ _ _ => trivial) (fun _ _ _ _ => Or.inr rfl) happlied
    exact (Safe.reaches hsafe hfree).post
  refine ⟨applied, before, happlied, hbare, ?_⟩
  obtain ⟨answer, hend⟩ := Reaches.of_request hlisting
  cases answer with
  | error error =>
      cases Reaches.of_pure hend
      exact Or.inl ⟨error, rfl, rfl, rfl⟩
  | ok packages =>
      cases Reaches.of_pure hend
      exact Or.inr ⟨rfl, rfl⟩

theorem withInventory_passed_iff {applied : CleanupResult} :
    (withInventory applied initial final).status = .passed ↔
      applied.status = .passed ∧ leftoverPackages initial final = [] := by
  unfold withInventory
  simp only
  split
  · next hfailed => simp [hfailed.2]
  · next hclean =>
      constructor
      · intro hpassed
        refine ⟨hpassed, ?_⟩
        by_contra hleft
        exact hclean ⟨hpassed, hleft⟩
      · exact fun hpassed => hpassed.1

theorem withInventory_leftovers {applied : CleanupResult} :
    (withInventory applied initial final).leftoverPackages = leftoverPackages initial final := by
  unfold withInventory
  simp only
  split <;> rfl

/-- A report without an inventory never says that the reconciliation has passed. -/
theorem withoutInventory_failed {applied : CleanupResult} {error : PackageManagerError} :
    (withoutInventory applied error).status ≠ .passed := by
  unfold withoutInventory
  simp only
  split
  · exact nofun
  · assumption

/-- The report of a reconciliation describes the inventory that it comes with, and a failed final
listing is never a pass, unless the restored target has vanished by the final listing. -/
theorem reconcile_describes_iff
    (hplan : plan = .restoreLatest ↔ dnpName ∈ PackageSummary.names initial)
    (h : Reaches recording (reconcileTarget dnpName plan initial timeout, [])
      (.pure (cleanup, final), t)) :
    (Describes dnpName plan initial cleanup final ∧
        (Unread t → final = [] ∧ cleanup.status ≠ .passed)) ↔
      ¬ Vanished dnpName plan initial t := by
  obtain ⟨applied, before, happlied, hbare, hlisting⟩ := reconcileTarget_parts h
  rcases hlisting with ⟨error, rfl, rfl, rfl⟩ | ⟨rfl, rfl⟩
  · have hfailed : (withoutInventory applied error).status ≠ .passed := withoutInventory_failed
    refine ⟨fun _ => ?_, fun _ => ⟨?_, fun _ => ⟨rfl, hfailed⟩⟩⟩
    · rintro ⟨_, final, before, hlast, _⟩
      cases hlast
    · refine ⟨fun hpassed => absurd hpassed hfailed, fun hpassed => absurd hpassed hfailed,
        fun hpassed => absurd hpassed hfailed, fun hpassed => absurd hpassed hfailed, ?_⟩
      show applied.leftoverPackages = _
      rw [hbare.unlisted]
      rfl
  · have hread : ¬ Unread (⟨.pm (.listPackages .finalInventory), .ok final⟩ :: before) := by
      rintro ⟨error, before, hlast⟩
      cases hlast
    have hknown : (withInventory applied initial final).status = .passed →
        ∀ package ∈ final, package.dnpName ∈ PackageSummary.names initial := fun hpassed =>
      leftoverPackages_eq_nil.mp (withInventory_passed_iff.mp hpassed).2
    -- the target of a removal was not there initially, so that it would be a leftover
    have hremoved : (withInventory applied initial final).status = .passed → plan = .remove →
        dnpName ∉ PackageSummary.names final := by
      intro hpassed hremove hpresent
      obtain ⟨package, hmem, rfl⟩ := List.mem_map.mp hpresent
      have hrestore := hplan.mpr (hknown hpassed package hmem)
      rw [hremove] at hrestore
      cases hrestore
    have hdescribes : Describes dnpName plan initial (withInventory applied initial final) final ↔
        ((withInventory applied initial final).status = .passed → plan = .restoreLatest →
          dnpName ∈ PackageSummary.names final) := by
      refine ⟨fun hall => hall.restored, fun hrestored => ⟨hknown, hrestored, hremoved, ?_, ?_⟩⟩
      · intro hpassed
        rw [withInventory_leftovers]
        exact (withInventory_passed_iff.mp hpassed).2
      · rw [withInventory_leftovers, leftoverPackages_eq]
    have hverified : plan = .restoreLatest →
        (applied.status = .passed ↔ Verified dnpName before) := by
      intro hrestore
      subst hrestore
      exact restoreLatestTarget_verified.ends happlied
    constructor
    · rintro ⟨hall, _⟩ ⟨hrestore, final', before', hlast, htarget, hinitial, hmissing⟩
      cases hlast
      have hpassed := withInventory_passed_iff.mpr
        ⟨(hverified hrestore).mpr htarget, leftoverPackages_eq_nil.mpr hinitial⟩
      exact hmissing (hall.restored hpassed hrestore)
    · intro hkept
      refine ⟨hdescribes.mpr ?_, fun hunread => absurd hunread hread⟩
      intro hpassed hrestore
      by_contra hmissing
      refine hkept ⟨hrestore, final, before, rfl, ?_, hknown hpassed, hmissing⟩
      exact (hverified hrestore).mp (withInventory_passed_iff.mp hpassed).1

namespace Sample

def listed : PackageSummary := ⟨⟨"target"⟩, none, false⟩

/-- A package manager that shows the reinstalled target in the listing that verifies it and, after
that, in no listing any more, unless it is `steady`. -/
def flickering (steady : Bool) : (call : PmCall) → Except PackageManagerError call.Reply
  | .listPackages .restoreVerification => .ok [listed]
  | .listPackages _ => .ok (if steady then [listed] else [])
  | call => cooperative none none (.ok ()) call

/-- The restoration of the target against that package manager. -/
def restoration (steady : Bool) :
    Runner (CleanupResult × List PackageSummary) ×
      Transcript RunnerRequest RunnerRequest.Answer :=
  Program.replay
    (answering (answers { installFails (fun _ _ => false) with
      packageManager := flickering steady })) 10
    (reconcileTarget ⟨"target"⟩ .restoreLatest [listed] (.ofMillis 60000), [])

theorem restoration_runs (steady : Bool) :
    Reaches recording (reconcileTarget ⟨"target"⟩ .restoreLatest [listed] (.ofMillis 60000), [])
      (restoration steady) :=
  Program.reaches_replay (answering_admitted _) 10 _

end Sample

/-- Where the target stays, its restoration passes with the target in the inventory. -/
theorem steady_restoration_describes :
    Describes ⟨"target"⟩ .restoreLatest [Sample.listed] cleanupPassed [Sample.listed] := by
  have hrun := Sample.restoration_runs true
  refine ((reconcile_describes_iff (by decide) hrun).mpr ?_).1
  rintro ⟨_, final, before, hlast, _, _, hmissing⟩
  cases hlast
  exact hmissing (by decide)

/-- A restored target that is gone by the final listing: the reconciliation passes with an inventory
that lacks it. -/
theorem vanished_target_passes :
    ¬ ∀ dnpName plan initial timeout cleanup final t,
      (plan = .restoreLatest ↔ dnpName ∈ PackageSummary.names initial) →
      Reaches recording (reconcileTarget dnpName plan initial timeout, [])
        (.pure (cleanup, final), t) →
      Describes dnpName plan initial cleanup final ∧
        (Unread t → final = [] ∧ cleanup.status ≠ .passed) := by
  intro hall
  have hrun := Sample.restoration_runs false
  have hdescribes := (hall ⟨"target"⟩ .restoreLatest [Sample.listed] (.ofMillis 60000)
    cleanupPassed [] _ (by decide) hrun).1
  have hpresent := hdescribes.restored rfl rfl
  cases hpresent

end PackageHarness
