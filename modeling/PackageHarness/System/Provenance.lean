/-
# PackageHarness.System.Provenance — which claim a record goes back to.

A record is created for a claim and keeps its request for good: the worker saves records only over
earlier states of the same job, and recovery actions do not touch what was asked for. So what the
store says about a run is what the coordinator said when the run was claimed.
-/
import PackageHarness.System.History

namespace PackageHarness

open Interaction Relation

/-! ## Requests in the store -/

namespace RunStore

variable {store : RunStore} {record : RunRecord} {run : RunId}

/-- What the run was claimed for. -/
def requestOf (store : RunStore) (run : RunId) : Option RunRequest :=
  (store run).map RunRecord.request

theorem requestOf_eq (h : store run = some record) : store.requestOf run = some record.request := by
  rw [requestOf, h, Option.map_some]

theorem requestOf_write_same (store : RunStore) (record : RunRecord) :
    (store.write record).requestOf record.id = some record.request :=
  congrArg (Option.map RunRecord.request) (write_same store record)

theorem requestOf_write (store : RunStore) (record : RunRecord) :
    (store.write record).requestOf =
      Function.update store.requestOf record.id (some record.request) := by
  funext run
  by_cases hid : run = record.id
  · subst hid
    rw [Function.update_self]
    exact requestOf_write_same store record
  · rw [Function.update_of_ne hid]
    exact congrArg (Option.map RunRecord.request) (write_of_ne store record hid)

/-- Writing a record that asks for the same leaves all requests. -/
theorem requestOf_write_of_eq (h : store.requestOf record.id = some record.request) :
    (store.write record).requestOf = store.requestOf := by
  rw [requestOf_write, ← h]
  exact Function.update_eq_self ..

end RunStore

namespace Ledger

variable {ext : Externals} {ledger later after : Ledger}

theorem Operated.requestOf (h : ledger.Operated after) :
    after.store.requestOf = ledger.store.requestOf := by
  obtain ⟨action, run, answer, record, changed, saved, hrun, happly, hsaves, hpreflight, _⟩ := h
  have hid : changed.id = run := (RecoveryAction.apply_id happly).trans (RunStore.id_of_lookup hrun)
  have hevolves : record.job.Evolves noDefect changed.job := RecoveryAction.apply_evolves happly
  have hrequest : changed.request = record.request := hevolves.request
  rcases saves_cases hsaves hpreflight with ⟨rfl, _⟩ | rfl
  · rfl
  · refine RunStore.requestOf_write_of_eq ?_
    rw [hid, hrequest]
    exact RunStore.requestOf_eq hrun

theorem Behind.requestOf (h : ledger.Behind later) :
    later.store.requestOf = ledger.store.requestOf := by
  induction h with
  | refl => rfl
  | tail _ hstep ih => exact hstep.requestOf.trans ih

/-- An answer that creates nothing leaves the requests, if what is saved is a state of the same
job. -/
theorem Answers.requestOf {request : WorkerRequest} {answer : request.Answer}
    (h : ledger.Answers request answer after) (hcreate : ∀ record, request ≠ .create record)
    (hsave : ∀ run site record, request = .runner run (.save site record) →
      ledger.store.requestOf record.id = some record.request) :
    after.store.requestOf = ledger.store.requestOf := by
  rcases h.store_cases with hsame | ⟨run, site, record, hrequest, hwritten⟩ | ⟨record, hrequest, _⟩
  · rw [hsame]
  · rw [hwritten]
    exact RunStore.requestOf_write_of_eq (hsave run site record hrequest)
  · exact absurd hrequest (hcreate record)

/-- The permitted saves are such. -/
theorem Permits.requestOf {run : RunId} {site : SaveSite} {record : RunRecord}
    (h : ledger.Permits ext noDefect (.runner run (.save site record))) :
    ledger.store.requestOf record.id = some record.request := by
  obtain ⟨_, haccepts, _⟩ := h
  obtain ⟨old, hold, hevolves⟩ := haccepts.durable
  rw [RunStore.requestOf_eq hold]
  exact congrArg some hevolves.request.symm

end Ledger

/-! ## Claims and records -/

namespace Life

variable {ext : Externals} {life after : Life}

/-- The coordinator has handed out this job. -/
def Claimed (life : Life) (job : ClaimedJob) : Prop :=
  (⟨.claim, some (.ok (.claimed job))⟩ : Remark) ∈ life.said

/-- The store tells what the runs were claimed for. -/
structure Attributed (life : Life) : Prop where
  claimed : ∀ run request, life.world.ledger.store.requestOf run = some request →
    ∃ job, life.Claimed job ∧ job.request = request
  created : ∀ record, (⟨.create record, some (.ok ())⟩ : Remark) ∈ life.said →
    life.world.ledger.store.requestOf record.id = some record.request

/-- Where no record is created and none changes its request, all stays as it is. -/
theorem Attributed.more (h : life.Attributed) (more : List Remark)
    (hsaid : after.said = more ++ life.said)
    (hmore : ∀ record, (⟨.create record, some (.ok ())⟩ : Remark) ∉ more)
    (hsame : after.world.ledger.store.requestOf = life.world.ledger.store.requestOf) :
    after.Attributed where
  claimed := by
    intro run request hrequest
    rw [hsame] at hrequest
    obtain ⟨job, hclaimed, hjob⟩ := h.claimed run request hrequest
    refine ⟨job, ?_, hjob⟩
    rw [Claimed, hsaid]
    exact List.mem_append_right _ hclaimed
  created := by
    intro record hcreated
    rw [hsaid] at hcreated
    rw [hsame]
    rcases List.mem_append.mp hcreated with hnew | hearlier
    · exact absurd hnew (hmore record)
    · exact h.created record hearlier

/-- A record that may have been created asks for what was claimed right before. -/
theorem Attributed.create {past : List Episode} {deployment : Deployment} {chronicle : Chronicle}
    {record : RunRecord} {next : Except StoreError Unit → Worker Unit} {world world' : World}
    {answer : Except StoreError Unit}
    (h : Attributed ⟨past, deployment, chronicle, .request (.create record) next, world⟩)
    (hlicensed : chronicle.Licensed deployment (.create record))
    (hanswers : world.ledger.Answers (.create record) answer world'.ledger) :
    Attributed ⟨past, deployment, ⟨.create record, answer⟩ :: chronicle, next answer, world'⟩ := by
  obtain ⟨job, time, before, hrecord, hchronicle⟩ := hlicensed
  constructor
  · intro run request hrequest
    rcases hanswers.create_cases with hsame | ⟨_, hwritten⟩
    · rw [hsame] at hrequest
      obtain ⟨other, hclaimed, hother⟩ := h.claimed run request hrequest
      exact ⟨other, List.mem_cons_of_mem _ hclaimed, hother⟩
    · rw [hwritten, RunStore.requestOf_write] at hrequest
      by_cases hid : run = record.id
      · subst hid
        rw [Function.update_self] at hrequest
        refine ⟨job, ?_, ?_⟩
        · subst hchronicle
          exact List.mem_cons_of_mem _ (List.mem_cons_of_mem _ (List.mem_cons_self ..))
        · subst hrecord
          exact Option.some.inj hrequest
      · rw [Function.update_of_ne hid] at hrequest
        obtain ⟨other, hclaimed, hother⟩ := h.claimed run request hrequest
        exact ⟨other, List.mem_cons_of_mem _ hclaimed, hother⟩
  · intro other hcreated
    rcases List.mem_cons.mp hcreated with heq | hearlier
    · cases heq
      rw [hanswers.created.2]
      exact RunStore.requestOf_write_same ..
    · have hother := h.created other hearlier
      rcases hanswers.create_cases with hsame | ⟨hnew, hwritten⟩
      · rw [hsame]
        exact hother
      · rw [hwritten, RunStore.requestOf_write]
        -- the run of the earlier record has one already
        refine (Function.update_of_ne ?_ ..).trans hother
        intro hid
        rw [hid, RunStore.requestOf, hnew] at hother
        cases hother

theorem Step.attributed (h : Step ext atomicOperators life after)
    (hlife : Reachable ext atomicOperators life) (hattributed : life.Attributed) :
    after.Attributed := by
  cases h with
  | @answer past deployment chronicle request next world answer world' hanswer =>
      have hanswers : world.ledger.Answers request answer world'.ledger := hanswer.1.1
      by_cases hcreates : ∃ record, request = .create record
      · obtain ⟨record, rfl⟩ := hcreates
        refine hattributed.create ?_ hanswers
        exact (Worker.run_licensed _ _ hlife.spoken).2.1 _ next rfl
      · have hcreate : ∀ record, request ≠ .create record :=
          fun record heq => hcreates ⟨record, heq⟩
        have hmore : ∀ record, (⟨.create record, some (.ok ())⟩ : Remark) ∉
            [(⟨request, some answer⟩ : Remark)] := by
          intro record hmem
          exact hcreate record (congrArg Remark.request (List.mem_singleton.mp hmem)).symm
        refine hattributed.more [⟨request, some answer⟩] rfl hmore ?_
        obtain ⟨earlier, hmachine, hbehind⟩ := hlife.postponed
        refine hanswers.requestOf hcreate ?_
        rintro run site record rfl
        have hpermits : earlier.ledger.Permits ext noDefect (.runner run (.save site record)) :=
          hmachine.permits ⟨next, rfl⟩
        exact (congrFun hbehind.ledger.requestOf record.id).trans hpermits.requestOf
  | drift hdrift =>
      refine hattributed.more [] rfl (fun _ => List.not_mem_nil) ?_
      exact congrArg (fun ledger => ledger.store.requestOf) hdrift.1
  | unroll => exact ⟨hattributed.claimed, hattributed.created⟩
  | outside hmoves =>
      refine hattributed.more [] rfl (fun _ => List.not_mem_nil) ?_
      rcases hmoves with hoperates | hstirs
      · exact hoperates.operated.requestOf
      · exact congrArg (fun ledger => ledger.store.requestOf) hstirs.1
  | restart =>
      refine hattributed.more _ life.remarks_eq ?_ rfl
      exact fun record hmem => Remark.not_creates_of_unanswered hmem record.id ⟨record, rfl, rfl⟩

theorem Reachable.attributed (h : Reachable ext atomicOperators life) : life.Attributed := by
  obtain ⟨deployment, hruns⟩ := h
  induction hruns with
  | refl =>
      refine ⟨fun run request hrequest => ?_, fun record hcreated => ?_⟩
      · exact absurd hrequest (by simp [start, World.initial, Ledger.empty, RunStore.requestOf,
          RunStore.empty, RunStore.lookup])
      · exact absurd hcreated List.not_mem_nil
  | tail hmiddle hstep ih => exact hstep.attributed ⟨deployment, hmiddle⟩ ih

end Life

end PackageHarness
