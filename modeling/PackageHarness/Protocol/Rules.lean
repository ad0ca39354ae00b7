/-
# PackageHarness.Protocol.Rules — the discipline that keeps the run store recoverable.

`Ledger.Permits` is the obligation that each request has to meet in the ledger in which it is made,
`Ledger.Consistent` what holds of the ledger at all times, and `protocol` the discipline made of the
two. That one permitted request preserves consistency, and moves every job only forward, is proved
here once; that the controller and the worker make only permitted requests is proved next to no
particular defect, along their code.
-/
import PackageHarness.Protocol.Actions

namespace PackageHarness

open Interaction

namespace Ledger

/-- No job holds a claim. -/
def Quiet (ledger : Ledger) : Prop :=
  ∀ run record, ledger.store run = some record → record.worker.claimToken = none

/-- No other job holds a claim. -/
def QuietExcept (ledger : Ledger) (run : RunId) : Prop :=
  ∀ other record, ledger.store other = some record → other ≠ run → record.worker.claimToken = none

/-- The run's durable record, if there is one, is not on hold. -/
def Unheld (ledger : Ledger) (run : RunId) : Prop :=
  ∀ record, ledger.store run = some record → record.worker.manualRecovery = none

section

variable (ext : Externals) (avoided : Defect → Prop)

structure Consistent (ledger : Ledger) : Prop where
  stored : ∀ {run record}, ledger.store run = some record → record.persisted = record
  sound : ∀ {run record}, ledger.store run = some record →
    record.job.Sound ext avoided ledger.preflight
  single : ∀ {run record run' record'}, ledger.store run = some record →
    ledger.store run' = some record' → record.worker.claimToken.isSome →
    record'.worker.claimToken.isSome → run = run'
  known : ∀ {run packages}, ledger.preflight run = some packages → (ledger.store run).isSome

/-- The record may replace what is durable under its id. -/
structure Accepts (ledger : Ledger) (record : RunRecord) : Prop where
  durable : ∃ old, ledger.store record.id = some old ∧ old.job.Evolves avoided record.job
  sound : record.job.Sound ext avoided ledger.preflight

/-- The run's durable record licenses a mutation of its target. -/
structure Armed (ledger : Ledger) (run : RunId) (call : PmCall) (target : DnpName) : Prop where
  durable : ∃ record, ledger.store run = some record ∧ record.job.target = target ∧
    record.worker.cleanupRequired = true ∧ record.cleanup.status ≠ .passed ∧
    (call.deletesVolumes = true → record.worker.targetRecovery = .remove)

/-- What has to hold of a record for which delivery starts. -/
structure Deliverable (ledger : Ledger) (record : RunRecord) : Prop where
  durable : ledger.store record.id = some record.persisted
  token : record.worker.claimToken.isSome
  outcome : record.result.isSome ∨ record.worker.workerError.isSome
  clean : avoided .redeliversUncleanResult → record.job.Clean

def Permits (ledger : Ledger) : WorkerRequest → Prop
  | .claim | .markDrained => ledger.Quiet
  | .create record => ledger.Quiet ∧ record.job.Sound ext avoided ledger.preflight
  | .completeRaw run body => ∃ record, ledger.store run = some record ∧
      record.worker.pendingCompletionBody = some body
  | .runner run (.save _ record) => record.id = run ∧ ledger.Accepts ext avoided record ∧
      ledger.QuietExcept run
  | .runner _ (.get id) => ledger.Unheld id
  | .runner run (.pm call) =>
      (call = .listPackages .preflight → ledger.preflight run = none ∧ (ledger.store run).isSome) ∧
        ∀ target, call.mutates = some target → ledger.Armed run call target
  | .runner run (.enter (.settleRecovered record)) =>
      ledger.store run = some record.persisted
  | .runner run (.enter (.deliverUntilTerminal record)) =>
      record.id = run ∧ ledger.Deliverable avoided record
  | .runner _ (.enter (.releaseReconciledClaim record)) =>
      avoided .releasesUncleanClaim → record.job.Clean
  | _ => True

/-- Whatever was durable still is, in a state of the same job that came after it. -/
structure Evolves (old new : Ledger) : Prop where
  store : ∀ {run record}, old.store run = some record →
    ∃ record', new.store run = some record' ∧ record.job.Evolves avoided record'.job
  preflight : ∀ {run packages}, old.preflight run = some packages →
    new.preflight run = some packages

end

variable {ext : Externals} {avoided : Defect → Prop} {ledger after : Ledger} {record : RunRecord}

theorem Evolves.refl (ledger : Ledger) : ledger.Evolves avoided ledger where
  store := fun h => ⟨_, h, Job.Evolves.refl _⟩
  preflight := id

theorem Evolves.trans {a b c : Ledger} (h : a.Evolves avoided b) (h' : b.Evolves avoided c) :
    a.Evolves avoided c where
  store := by
    intro run record hrun
    obtain ⟨record', hrun', hevolves⟩ := h.store hrun
    obtain ⟨record'', hrun'', hevolves'⟩ := h'.store hrun'
    exact ⟨record'', hrun'', hevolves.trans hevolves'⟩
  preflight := fun hrun => h'.preflight (h.preflight hrun)

theorem Consistent.empty : Consistent ext avoided Ledger.empty where
  stored := fun h => nomatch h
  sound := fun h => nomatch h
  single := fun h => nomatch h
  known := fun h => nomatch h

/-- Jobs without a claim are those that need no attention. -/
theorem Consistent.requiresWorkerAttention (h : ledger.Consistent ext avoided) {run : RunId}
    (hrun : ledger.store run = some record) :
    record.requiresWorkerAttention = record.worker.claimToken.isSome :=
  (h.sound hrun).requiresWorkerAttention

theorem Consistent.quietExcept (h : ledger.Consistent ext avoided) {run : RunId}
    (hrun : ledger.store run = some record) (htoken : record.worker.claimToken.isSome) :
    ledger.QuietExcept run := by
  intro other record' hother hne
  by_cases htoken' : record'.worker.claimToken = none
  · exact htoken'
  · exact absurd (h.single hother hrun (Option.isSome_iff_ne_none.mpr htoken') htoken) hne

/-! ## Saving -/

/-- The ledger after the record's file was replaced. -/
def write (ledger : Ledger) (record : RunRecord) : Ledger :=
  { ledger with store := ledger.store.write record }

theorem write_store_cases {ledger : Ledger} {record found : RunRecord} {run : RunId}
    (h : (ledger.write record).store run = some found) :
    (run = record.id ∧ found = record.persisted) ∨
      run ≠ record.id ∧ ledger.store run = some found := by
  by_cases hrun : run = record.id
  · subst hrun
    rw [show (ledger.write record).store record.id = some record.persisted from
      RunStore.write_same ..] at h
    exact Or.inl ⟨rfl, (Option.some.inj h).symm⟩
  · rw [show (ledger.write record).store run = ledger.store run from
      RunStore.write_of_ne _ _ hrun] at h
    exact Or.inr ⟨hrun, h⟩

/-- A failed or finished save leaves the ledger as it was or replaces the record. -/
theorem saves_cases {answer : Except StoreError Unit}
    (hsaves : ledger.store.Saves record answer after.store)
    (hpreflight : after.preflight = ledger.preflight) :
    (after = ledger ∧ ∃ error, answer = .error error) ∨ after = ledger.write record := by
  obtain ⟨store, preflight⟩ := after
  simp only at hpreflight hsaves
  subst hpreflight
  rcases answer with error | _
  · -- a save that reports an error may still have replaced the file
    rcases hsaves with hstore | hstore
    · subst hstore
      exact Or.inl ⟨rfl, error, rfl⟩
    · subst hstore
      exact Or.inr rfl
  · subst hsaves
    exact Or.inr rfl

theorem Accepts.old_token (h : ledger.Accepts ext avoided record)
    (htoken : record.worker.claimToken.isSome) :
    ∃ old, ledger.store record.id = some old ∧ old.worker.claimToken.isSome := by
  obtain ⟨old, hold, hevolves⟩ := h.durable
  refine ⟨old, hold, ?_⟩
  -- a claim token is never regained
  by_cases hnone : old.worker.claimToken = none
  · have hnew : record.worker.claimToken = none := hevolves.token hnone
    simp [hnew] at htoken
  · exact Option.isSome_iff_ne_none.mpr hnone

theorem Accepts.others (h : ledger.Accepts ext avoided record)
    (hinv : ledger.Consistent ext avoided) (htoken : record.worker.claimToken.isSome) :
    ledger.QuietExcept record.id := by
  obtain ⟨old, hold, holdToken⟩ := h.old_token htoken
  exact hinv.quietExcept hold holdToken

/-- A sound record may be written when the run it belongs to is the only one with a claim. -/
theorem Consistent.of_write (h : ledger.Consistent ext avoided)
    (hsound : record.job.Sound ext avoided ledger.preflight)
    (honly : record.worker.claimToken.isSome → ledger.QuietExcept record.id) :
    (ledger.write record).Consistent ext avoided where
  stored := by
    intro run found hfound
    rcases write_store_cases hfound with ⟨rfl, rfl⟩ | ⟨_, hold⟩
    · exact RunRecord.persisted_persisted record
    · exact h.stored hold
  sound := by
    intro run found hfound
    rcases write_store_cases hfound with ⟨rfl, rfl⟩ | ⟨_, hold⟩
    · exact hsound
    · exact h.sound hold
  single := by
    intro run found run' found' hfound hfound' htoken htoken'
    -- each of the two is the written record or an old one
    rcases write_store_cases hfound with ⟨rfl, rfl⟩ | ⟨hne, hold⟩ <;>
      rcases write_store_cases hfound' with ⟨rfl, rfl⟩ | ⟨hne', hold'⟩
    · rfl
    · simp [honly htoken run' found' hold' hne'] at htoken'
    · simp [honly htoken' run found hold hne] at htoken
    · exact h.single hold hold' htoken htoken'
  known := by
    intro run packages hrun
    have hold := h.known hrun
    by_cases hid : run = record.id
    · subst hid
      exact Option.isSome_iff_exists.mpr ⟨_, RunStore.write_same ..⟩
    · exact (congrArg Option.isSome (RunStore.write_of_ne ledger.store record hid)).trans hold

theorem Consistent.write (h : ledger.Consistent ext avoided)
    (haccepts : ledger.Accepts ext avoided record) :
    (ledger.write record).Consistent ext avoided := by
  exact h.of_write haccepts.sound (haccepts.others h)

theorem Accepts.evolves (haccepts : ledger.Accepts ext avoided record) :
    ledger.Evolves avoided (ledger.write record) where
  store := by
    intro run old hold
    by_cases hid : run = record.id
    · subst hid
      obtain ⟨old', hold', hevolves⟩ := haccepts.durable
      cases hold.symm.trans hold'
      exact ⟨record.persisted, RunStore.write_same .., hevolves⟩
    · exact ⟨old, (RunStore.write_of_ne _ _ hid).trans hold, Job.Evolves.refl _⟩
  preflight := id

/-! ## Creating -/

theorem Evolves.create (hnew : ledger.store record.id = none) :
    ledger.Evolves avoided (ledger.write record) where
  store := by
    intro run old hold
    have hid : run ≠ record.id := by
      intro heq
      subst heq
      simp [hnew] at hold
    exact ⟨old, (RunStore.write_of_ne _ _ hid).trans hold, Job.Evolves.refl _⟩
  preflight := id

/-! ## Noting an inventory -/

theorem Evolves.note {run : RunId} {packages : List PackageSummary}
    (hnone : ledger.preflight run = none) :
    ledger.Evolves avoided (ledger.noteInventory run packages) where
  store := fun h => ⟨_, h, Job.Evolves.refl _⟩
  preflight := by
    intro other found hother
    have hne : other ≠ run := by
      intro heq
      subst heq
      simp [hnone] at hother
    exact (Function.update_of_ne hne ..).trans hother

theorem Consistent.note (h : ledger.Consistent ext avoided) {run : RunId}
    {packages : List PackageSummary} (hnone : ledger.preflight run = none)
    (hknown : (ledger.store run).isSome) :
    (ledger.noteInventory run packages).Consistent ext avoided where
  stored := h.stored
  sound := by
    intro other record hother
    have hevolves : ledger.Evolves avoided (ledger.noteInventory run packages) := .note hnone
    exact (h.sound hother).note fun _ _ => hevolves.preflight
  single := h.single
  known := by
    intro other found hother
    by_cases hne : other = run
    · exact hne ▸ hknown
    · rw [show (ledger.noteInventory run packages).preflight other = ledger.preflight other from
        Function.update_of_ne hne ..] at hother
      exact h.known hother

/-! ## One step -/

/-- What a permitted request leaves behind. -/
structure Follows (ext : Externals) (avoided : Defect → Prop) (before after : Ledger) : Prop where
  consistent : after.Consistent ext avoided
  evolves : before.Evolves avoided after

theorem Follows.same (h : ledger.Consistent ext avoided) (hsame : after = ledger) :
    ledger.Follows ext avoided after := by
  subst hsame
  exact ⟨h, .refl after⟩

theorem Follows.save (h : ledger.Consistent ext avoided)
    (haccepts : ledger.Accepts ext avoided record) {answer : Except StoreError Unit}
    (hsaves : ledger.store.Saves record answer after.store)
    (hpreflight : after.preflight = ledger.preflight) : ledger.Follows ext avoided after := by
  rcases saves_cases hsaves hpreflight with ⟨hsame, _⟩ | rfl
  · exact .same h hsame
  · exact ⟨h.write haccepts, haccepts.evolves⟩

theorem Follows.create (h : ledger.Consistent ext avoided) (hquiet : ledger.Quiet)
    (hsound : record.job.Sound ext avoided ledger.preflight) {answer : Except StoreError Unit}
    (hcreates : ledger.store.Creates record answer after.store)
    (hpreflight : after.preflight = ledger.preflight) : ledger.Follows ext avoided after := by
  unfold RunStore.Creates at hcreates
  split at hcreates
  · next hnew =>
      rcases saves_cases hcreates hpreflight with ⟨hsame, _⟩ | rfl
      · exact .same h hsame
      · exact ⟨h.of_write hsound fun _ other found hother _ => hquiet other found hother,
          .create hnew⟩
  · obtain ⟨store, preflight⟩ := after
    obtain ⟨hstore, _⟩ := hcreates
    simp only at hpreflight hstore
    subst hpreflight hstore
    exact .same h rfl

/-- One permitted request, however it is answered. -/
theorem Follows.answer {request : WorkerRequest} {answer : request.Answer}
    (h : ledger.Consistent ext avoided) (hpermits : ledger.Permits ext avoided request)
    (hanswers : ledger.Answers request answer after) : ledger.Follows ext avoided after := by
  cases request with
  | runner run request =>
      cases request with
      | save site record => exact .save h hpermits.2.1 hanswers.1 hanswers.2
      | get id => exact .same h hanswers.1
      | pm call =>
          by_cases hpreflight : call = .listPackages .preflight
          · subst hpreflight
            obtain ⟨hnone, hknown⟩ := hpermits.1 rfl
            rcases answer with error | packages
            · exact .same h hanswers
            · cases hanswers
              exact ⟨h.note hnone hknown, .note hnone⟩
          · have hsame : after = ledger := by
              cases call with
              | listPackages purpose =>
                  cases purpose with
                  | preflight => exact absurd rfl hpreflight
                  | _ => exact hanswers
              | _ => exact hanswers
            exact .same h hsame
      | _ => exact .same h hanswers
  | create record => exact .create h hpermits.1 hpermits.2 hanswers.1 hanswers.2
  | loadAll => exact .same h hanswers.1
  | _ => exact .same h hanswers

/-- One recovery action, whether or not it could be stored. -/
theorem Follows.operate {action : RecoveryAction} {run : RunId}
    {answer : Except OperatorRecoveryError Unit} (h : ledger.Consistent ext avoided)
    (hoperates : ledger.Operates action run answer after) : ledger.Follows ext avoided after := by
  obtain ⟨record, changed, saved, hrun, happly, hsaves, hpreflight, _⟩ := hoperates
  have hid : changed.id = run := (RecoveryAction.apply_id happly).trans (RunStore.id_of_lookup hrun)
  refine .save h ⟨⟨record, hid ▸ hrun, RecoveryAction.apply_evolves happly⟩, ?_⟩ hsaves hpreflight
  exact RecoveryAction.apply_sound (h.sound hrun) happly

/-- No action applies to a job without a hold, so quiet stays quiet. -/
theorem Quiet.follows (hquiet : ledger.Quiet) (h : ledger.Evolves avoided after)
    (hback : ∀ {run record}, after.store run = some record → (ledger.store run).isSome) :
    after.Quiet := by
  intro run record hrun
  obtain ⟨old, hold⟩ := Option.isSome_iff_exists.mp (hback hrun)
  obtain ⟨record', hrun', hevolves⟩ := h.store hold
  cases hrun.symm.trans hrun'
  exact hevolves.token (hquiet run old hold)

theorem Operates.back {action : RecoveryAction} {run : RunId}
    {answer : Except OperatorRecoveryError Unit} (h : ledger.Consistent ext avoided)
    (hoperates : ledger.Operates action run answer after) {other : RunId} {found : RunRecord}
    (hfound : after.store other = some found) : (ledger.store other).isSome := by
  obtain ⟨record, changed, saved, hrun, happly, hsaves, hpreflight, _⟩ := hoperates
  have hid : changed.id = run := (RecoveryAction.apply_id happly).trans (RunStore.id_of_lookup hrun)
  rcases saves_cases hsaves hpreflight with ⟨rfl, _⟩ | rfl
  · exact Option.isSome_iff_exists.mpr ⟨_, hfound⟩
  · rcases write_store_cases hfound with ⟨rfl, _⟩ | ⟨_, hold⟩
    · rw [hid, hrun]
      rfl
    · exact Option.isSome_iff_exists.mpr ⟨_, hold⟩

end Ledger

/-! ## The discipline -/

/-- Permitted requests on a consistent ledger. -/
def protocol (ext : Externals) (avoided : Defect → Prop) :
    Discipline WorkerRequest WorkerRequest.Answer Ledger where
  answer := fun ledger request answer after => ledger.Answers request answer after ∧
    ∀ defect, avoided defect → ¬ defect.ShownBy request answer after
  drift := fun request ledger after => request.holdsCopy = false ∧
    ∃ action run answer, ledger.Operates action run answer after
  guard := Ledger.Permits ext avoided
  inv := Ledger.Consistent ext avoided
  inv_answer := fun hinv hguard hanswer =>
    (Ledger.Follows.answer hinv hguard hanswer.1).consistent
  inv_drift := fun hinv ⟨_, _, _, _, hoperates⟩ =>
    (Ledger.Follows.operate hinv hoperates).consistent

theorem protocol_still {ext : Externals} {avoided : Defect → Prop} {request : WorkerRequest}
    (h : request.holdsCopy = true) : (protocol ext avoided).Still request := by
  intro ledger after hanswer
  obtain ⟨hfree, _⟩ := hanswer
  simp [h] at hfree

end PackageHarness
