/-
# PackageHarness.Runner.Cleanup — bringing the target back to its planned state.

`reconcileTarget` applies the persisted recovery plan and then reads the complete inventory once
more. What the rest of the development needs to know about it is its effect bound: it mutates only
the target, destroys volumes only under the plan `remove`, and always reports a definite status.
-/
import PackageHarness.Runner.Ports

namespace PackageHarness

open Interaction Redaction

/-- The statuses a reconciliation reports. -/
def CleanupStatus.Definite (status : CleanupStatus) : Prop :=
  status = .passed ∨ status = .failed ∨ status = .timedOut

namespace CleanupStatus

theorem definite_passed : Definite .passed := Or.inl rfl

theorem definite_failed : Definite .failed := Or.inr (Or.inl rfl)

theorem definite_timedOut : Definite .timedOut := Or.inr (Or.inr rfl)

end CleanupStatus

/-- What the plan-specific part reports: a definite status, and no leftovers yet. -/
structure CleanupResult.Applied (cleanup : CleanupResult) : Prop where
  definite : cleanup.status.Definite
  unlisted : cleanup.leftoverPackages = []

/-- What a reconciliation reports: a definite status, and leftovers only if it did not pass. -/
structure CleanupResult.Settled (cleanup : CleanupResult) : Prop where
  definite : cleanup.status.Definite
  clean : cleanup.status = .passed → cleanup.leftoverPackages = []

namespace Runner

def lists (packages : List PackageSummary) (dnpName : DnpName) : Bool :=
  packages.any fun package => package.dnpName == dnpName

/-- `timeout.saturating_sub(started.elapsed())`. -/
def remainingTime (timeout : Duration) (started : Nat) : Runner Duration := do
  let current ← instant
  return timeout - (current - started)

def cleanupPassed : CleanupResult := ⟨.passed, [], none⟩

def cleanupError (error : PackageManagerError) : CleanupResult :=
  ⟨.failed, [], some (truncateUtf8 error.toText 300)⟩

def removalTimedOut : CleanupResult :=
  ⟨.timedOut, [], some "target package remained installed after bounded cleanup polling"⟩

def removalPoll : Duration := .ofMillis 500

/-- One pass of the verification loop up to its sleep; `none` means that it goes on. -/
def sampleRemoval (dnpName : DnpName) (timeout : Duration) (verificationStarted : Nat)
    (last : Bool) : Runner (Option CleanupResult) := do
  let remaining ← remainingTime timeout verificationStarted
  if remaining = 0 then
    return some removalTimedOut
  else
    match ← listPackagesWithin remaining with
    -- a target that is still listed is waited for, up to the last attempt
    | some (.ok packages) =>
        return if lists packages dnpName then none else some cleanupPassed
    | some (.error error) => return if last then some (cleanupError error) else none
    | none => return some removalTimedOut

/-- The verification loop with `left` attempts to go. -/
def verifyRemoval (dnpName : DnpName) (timeout : Duration) (verificationStarted : Nat) :
    (left : Nat) → Runner CleanupResult
  | 0 => return removalTimedOut
  | left + 1 => do
      match ← sampleRemoval dnpName timeout verificationStarted (left == 0) with
      | some result => return result
      | none =>
          if left = 0 then
            return removalTimedOut
          else
            let remaining ← remainingTime timeout verificationStarted
            if remaining = 0 then
              return removalTimedOut
            else
              sleep (min removalPoll remaining)
              verifyRemoval dnpName timeout verificationStarted left

def removalAttempts (timeout : Duration) : Nat :=
  min (timeout.asMillis / removalPoll.asMillis + 1) 1000

def cleanupTarget (dnpName : DnpName) (timeout : Duration) : Runner CleanupResult := do
  match ← removePackage dnpName true with
  | .error error =>
      -- a target that is gone already is verified like one that was removed
      if error.isNotFound then verify else return cleanupError error
  | .ok _ => verify
where
  verify : Runner CleanupResult := do
    let verificationStarted ← instant
    verifyRemoval dnpName timeout verificationStarted (removalAttempts timeout)

/-- Reinstalls the latest published release while preserving package volumes. -/
def restoreLatestTarget (dnpName : DnpName) : Runner CleanupResult := do
  match ← removePackage dnpName false with
  | .error error =>
      if error.isNotFound then reinstall else return cleanupError error
  | .ok _ => reinstall
where
  reinstall : Runner CleanupResult := do
    match ← installPackage dnpName none with
    | .error error => return cleanupError error
    | .ok _ =>
        match ← listPackages .restoreVerification with
        | .ok packages =>
            return if lists packages dnpName then cleanupPassed else
              ⟨.failed, [], some "latest published release was not present after reinstall"⟩
        | .error error => return cleanupError error

def leftoverPackages (initial finalPackages : List PackageSummary) : List String :=
  (finalPackages.filter fun package =>
    !(initial.map (·.dnpName)).contains package.dnpName).map (·.dnpName.value)

/-- The overlay for a final inventory that could not be read. -/
def withoutInventory (cleanup : CleanupResult) (error : PackageManagerError) : CleanupResult :=
  { cleanup with
    status := if cleanup.status = .passed then .failed else cleanup.status
    error := cleanup.error.or (some (truncateUtf8 error.toText 300)) }

/-- The overlay for a final inventory that was read. -/
def withInventory (cleanup : CleanupResult) (initial finalPackages : List PackageSummary) :
    CleanupResult :=
  let leftovers := leftoverPackages initial finalPackages
  -- leftovers turn a passed cleanup into a failed one, and are reported in any case
  if cleanup.status = .passed ∧ leftovers ≠ [] then
    let names := ", ".intercalate leftovers
    { status := .failed
      leftoverPackages := leftovers
      error := some (truncateUtf8
        s!"cleanup left packages that were not present before the run: {names}" 300) }
  else
    { cleanup with leftoverPackages := leftovers }

/-- The plan-specific part of a reconciliation. -/
def applyPlan (dnpName : DnpName) (timeout : Duration) : TargetRecoveryPlan → Runner CleanupResult
  | .restoreLatest => restoreLatestTarget dnpName
  | .remove => cleanupTarget dnpName timeout

/-- Applies a persisted target recovery plan and verifies the complete package inventory. -/
def reconcileTarget (dnpName : DnpName) (plan : TargetRecoveryPlan)
    (initialPackages : List PackageSummary) (timeout : Duration) :
    Runner (CleanupResult × List PackageSummary) := do
  let cleanup ← applyPlan dnpName timeout plan
  match ← listPackages .finalInventory with
  | .error error => return (withoutInventory cleanup error, [])
  | .ok finalPackages => return (withInventory cleanup initialPackages finalPackages, finalPackages)

/-! ## The effect bound -/

/-- The requests that reconciling `dnpName` under `plan` may issue. -/
def Reconciles (dnpName : DnpName) (plan : TargetRecoveryPlan) : RunnerRequest → Prop
  | .pm (.listPackages purpose) => purpose = .restoreVerification ∨ purpose = .finalInventory
  | .pm (.removePackage target deleteVolumes) =>
      target = dnpName ∧ (deleteVolumes = true → plan = .remove)
  | .pm (.installPackage target _) => target = dnpName
  | .listPackagesWithin _ | .instant | .sleep _ => True
  | _ => False

open CleanupStatus

variable {dnpName : DnpName} {plan : TargetRecoveryPlan} {timeout : Duration}

theorem Reconciles.mutates {call : PmCall} {target : DnpName}
    (h : Reconciles dnpName plan (.pm call)) (hmutates : call.mutates = some target) :
    target = dnpName ∧ (call.deletesVolumes = true → plan = .remove) := by
  cases call with
  | removePackage removed deleteVolumes =>
      cases hmutates
      exact h
  | installPackage installed version =>
      cases hmutates
      exact ⟨h, nofun⟩
  | installPackageBypassingSignature installed version => exact h.elim
  | updatePackage updated version => exact h.elim
  | _ => cases hmutates

theorem remainingTime_within {started : Nat} :
    Within (Reconciles dnpName plan) (fun _ => True) (remainingTime timeout started) :=
  Within.perform trivial fun _ => Within.pure trivial

theorem cleanupPassed_applied : cleanupPassed.Applied := ⟨definite_passed, rfl⟩

theorem removalTimedOut_applied : removalTimedOut.Applied := ⟨definite_timedOut, rfl⟩

theorem cleanupError_applied {error : PackageManagerError} : (cleanupError error).Applied :=
  ⟨definite_failed, rfl⟩

theorem sampleRemoval_within {started : Nat} {last : Bool} :
    Within (Reconciles dnpName plan) (fun r => ∀ c ∈ r, c.Applied)
      (sampleRemoval dnpName timeout started last) := by
  refine Within.bind remainingTime_within ?_
  intro remaining _
  split
  · exact Within.pure (by simp [removalTimedOut_applied])
  · refine Within.perform trivial ?_
    intro r
    rcases r with _ | (error | packages)
    · exact Within.pure (by simp [removalTimedOut_applied])
    · refine Within.pure ?_
      cases last with
      | false => simp
      | true => simp [cleanupError_applied]
    · refine Within.pure ?_
      cases lists packages dnpName with
      | false => simp [cleanupPassed_applied]
      | true => simp

theorem verifyRemoval_within {started : Nat} (left : Nat) :
    Within (Reconciles dnpName plan) CleanupResult.Applied
      (verifyRemoval dnpName timeout started left) := by
  -- on the attempts that are left: each pass ends the loop or hands over to the next
  induction left with
  | zero => exact Within.pure removalTimedOut_applied
  | succ left ih =>
      refine Within.bind sampleRemoval_within ?_
      intro r hr
      rcases r with _ | result
      · simp only
        split
        · exact Within.pure removalTimedOut_applied
        · refine Within.bind remainingTime_within ?_
          intro remaining _
          split
          · exact Within.pure removalTimedOut_applied
          · exact Within.perform trivial fun _ => ih
      · exact Within.pure (hr result rfl)

/-- `cleanupTarget` deletes volumes, so it is bounded only under the plan `remove`. -/
theorem cleanupTarget_within :
    Within (Reconciles dnpName .remove) CleanupResult.Applied
      (cleanupTarget dnpName timeout) := by
  have hverify : Within (Reconciles dnpName .remove) CleanupResult.Applied
      (cleanupTarget.verify dnpName timeout) :=
    Within.perform trivial fun _ => verifyRemoval_within _
  refine Within.perform ⟨rfl, fun _ => rfl⟩ fun r => ?_
  rcases r with error | _
  · dsimp only
    split
    · exact hverify
    · exact Within.pure cleanupError_applied
  · exact hverify

theorem restoreLatestTarget_within :
    Within (Reconciles dnpName plan) CleanupResult.Applied
      (restoreLatestTarget dnpName) := by
  have hreinstall : Within (Reconciles dnpName plan) CleanupResult.Applied
      (restoreLatestTarget.reinstall dnpName) := by
    refine Within.perform rfl fun r => ?_
    rcases r with error | _
    · exact Within.pure cleanupError_applied
    · refine Within.perform (Or.inl rfl) fun r => ?_
      rcases r with error | packages
      · exact Within.pure cleanupError_applied
      · refine Within.pure ?_
        cases lists packages dnpName with
        | false => exact ⟨definite_failed, rfl⟩
        | true => exact cleanupPassed_applied
  refine Within.perform ⟨rfl, nofun⟩ fun r => ?_
  rcases r with error | _
  · dsimp only
    split
    · exact hreinstall
    · exact Within.pure cleanupError_applied
  · exact hreinstall

/-- The plan-specific part touches only its target and reports no leftovers of its own. -/
theorem applyPlan_within :
    Within (Reconciles dnpName plan) CleanupResult.Applied (applyPlan dnpName timeout plan) := by
  cases plan with
  | remove => exact cleanupTarget_within
  | restoreLatest => exact restoreLatestTarget_within

theorem withoutInventory_settled {cleanup : CleanupResult} {error : PackageManagerError}
    (h : cleanup.Applied) : (withoutInventory cleanup error).Settled := by
  unfold withoutInventory
  by_cases hpassed : cleanup.status = .passed
  · exact ⟨by simp [hpassed, definite_failed], by simp [hpassed]⟩
  · exact ⟨by simpa [hpassed] using h.definite, by simp [hpassed]⟩

theorem withInventory_settled {cleanup : CleanupResult}
    {initial finalPackages : List PackageSummary} (h : cleanup.Applied) :
    (withInventory cleanup initial finalPackages).Settled := by
  unfold withInventory
  simp only
  split
  · exact ⟨definite_failed, nofun⟩
  · next hclean =>
      refine ⟨h.definite, fun hpassed => ?_⟩
      have hpassed : cleanup.status = .passed := hpassed
      simpa [hpassed] using hclean

/-- A reconciliation touches only its target, destroys volumes only under the plan `remove`, and
reports a definite status, with leftovers only if it did not pass. -/
theorem reconcileTarget_within {initialPackages : List PackageSummary} :
    Within (Reconciles dnpName plan) (fun c => c.1.Settled)
      (reconcileTarget dnpName plan initialPackages timeout) := by
  refine Within.bind applyPlan_within ?_
  intro cleanup hcleanup
  refine Within.perform (Or.inr rfl) fun r => ?_
  rcases r with error | packages
  · exact Within.pure (withoutInventory_settled hcleanup)
  · exact Within.pure (withInventory_settled hcleanup)

end Runner

end PackageHarness
