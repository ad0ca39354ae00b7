/-
# PackageHarness.System.Upkept — what holds of every record in the store.

A property of records that the worker and the recovery actions keep up, and that does not depend on
what the serializer leaves out, holds of every stored record at any time: whatever was written came
from a program that reads nothing else, and a failed write leaves either record behind. Handlers may
move between any two steps of the worker.
-/
import PackageHarness.Conduct.Upkeep
import PackageHarness.System.Office

namespace PackageHarness

open Interaction Relation

/-! ## The store -/

namespace Ledger

variable {ok : RunRecord → Prop} {ledger after : Ledger}

/-- Every stored record is `ok`. -/
def Holds (ok : RunRecord → Prop) (ledger : Ledger) : Prop :=
  ∀ run record, ledger.store run = some record → ok record

theorem holds_empty : Ledger.empty.Holds ok := by
  intro run record hrecord
  cases hrecord

theorem Holds.of_write (h : ledger.Holds ok) {record : RunRecord} (hrecord : ok record.persisted)
    (hwritten : after.store = ledger.store.write record) : after.Holds ok := by
  intro run found hfound
  rw [hwritten] at hfound
  by_cases hid : run = record.id
  · subst hid
    rw [RunStore.write_same] at hfound
    cases hfound
    exact hrecord
  · rw [RunStore.write_of_ne _ _ hid] at hfound
    exact h run found hfound

theorem Holds.of_store (h : ledger.Holds ok) (hsame : after.store = ledger.store) :
    after.Holds ok := by
  rw [Holds, hsame]
  exact h

/-- What is read is what is stored. -/
theorem Holds.reads (h : ledger.Holds ok) {request : WorkerRequest} {answer : request.Answer}
    (hanswers : ledger.Answers request answer after) : request.Reads ok answer := by
  cases request with
  | runner run asked =>
      cases asked with
      | get id =>
          rintro record rfl
          exact h id record (hanswers.2 _ rfl).symm
      | _ => trivial
  | loadAll =>
      rintro records rfl record hmem
      exact h record.id record ((hanswers.2 records rfl).mem.mp hmem)
  | _ => trivial

theorem Holds.answered (h : ledger.Holds ok) (hpersisted : ∀ record, ok record → ok record.persisted)
    {request : WorkerRequest} {answer : request.Answer} (hwrites : request.Writes ok)
    (hanswers : ledger.Answers request answer after) : after.Holds ok := by
  rcases hanswers.store_cases with hsame | ⟨run, site, record, rfl, hwritten⟩ |
    ⟨record, rfl, _, hwritten⟩
  · exact h.of_store hsame
  · exact h.of_write (hpersisted record hwrites) hwritten
  · exact h.of_write (hpersisted record hwrites) hwritten

theorem Holds.operated (h : ledger.Holds ok) (hpersisted : ∀ record, ok record → ok record.persisted)
    (happly : ∀ {action : RecoveryAction} {record changed}, action.apply record = .ok changed →
      ok record → ok changed) (hoperated : ledger.Operated after) : after.Holds ok := by
  obtain ⟨action, run, answer, record, changed, saved, hrecord, hchanged, hsaves, hpreflight, _⟩ :=
    hoperated
  rcases saves_cases hsaves hpreflight with ⟨hsame, _⟩ | hwritten
  · exact h.of_store (congrArg Ledger.store hsame)
  · have hok := hpersisted changed (happly hchanged (h run record hrecord))
    exact h.of_write hok (congrArg Ledger.store hwritten)

end Ledger

/-! ## The parties -/

section Parties

variable {ok : RunRecord → Prop} {α : Type} {p p' : Worker α} {world after : World}

/-- A step of a program that keeps up `ok` in a world in which everything stored is. -/
theorem Safe.upkept (h : Safe (upkeep ok) (fun _ _ => True) p ())
    (hpersisted : ∀ record, ok record → ok record.persisted) (hworld : world.ledger.Holds ok)
    (hstep : Interaction.Step (unattended noDefect) (p, world) (p', after)) :
    Safe (upkeep ok) (fun _ _ => True) p' () ∧ after.ledger.Holds ok := by
  cases hstep with
  | @answer request next _ answer _ hanswer =>
      have hreads := hworld.reads hanswer.1.1
      have hwrites : request.Writes ok := h.obeys.2.1 request next rfl
      have hanswered : Interaction.Step (upkeep ok).toSemantics (.request request next, ())
          (next answer, ()) := .answer hreads
      exact ⟨h.reaches (ReflTransGen.single hanswered),
        hworld.answered hpersisted hwrites hanswer.1.1⟩
  | drift hdrift => exact ⟨h, hworld.of_store (congrArg Ledger.store hdrift.1)⟩
  | unroll => exact ⟨h.reaches (ReflTransGen.single .unroll), hworld⟩

theorem RecoveryAction.store_upkept {action : RecoveryAction} {run : RunId} {changed : RunRecord}
    (h : ok changed) : Safe (upkeep ok) (fun _ _ => True) (action.store run changed) () := by
  refine Safe.kept h fun saved _ => ?_
  rcases saved with error | _
  · exact Safe.pure trivial trivial
  · cases action with
    | confirmCleanup => exact Safe.pure trivial trivial
    | _ => exact Safe.kept trivial fun _ _ => Safe.pure trivial trivial

/-- A handler writes a change of what it has read. -/
theorem RecoveryAction.handle_upkept {action : RecoveryAction} {run : RunId}
    (happly : ∀ {action : RecoveryAction} {record changed}, action.apply record = .ok changed →
      ok record → ok changed) :
    Safe (upkeep ok) (fun _ _ => True) (action.handle run) () := by
  refine Safe.kept trivial fun answer hreads => ?_
  rcases answer with error | (_ | record)
  · exact Safe.pure trivial trivial
  · exact Safe.pure trivial trivial
  · show Safe _ _ (action.proceed run (.ok (some record))) _
    rw [RecoveryAction.proceed]
    split
    · exact Safe.pure trivial trivial
    · next changed hchanged => exact store_upkept (happly hchanged (hreads record rfl))

end Parties

/-! ## The office -/

namespace Office

variable {ok : RunRecord → Prop} {ext : Externals} {office later : Office}

/-- Everything stored is `ok`, and every party keeps to that. -/
structure Upkept (ok : RunRecord → Prop) (office : Office) : Prop where
  store : office.life.world.ledger.Holds ok
  worker : Safe (upkeep ok) (fun _ _ => True) office.life.worker ()
  handlers : ∀ handler ∈ office.handlers, Safe (upkeep ok) (fun _ _ => True) handler.program ()

section

variable (hpersisted : ∀ record, ok record → ok record.persisted)
  (happly : ∀ {action : RecoveryAction} {record changed}, action.apply record = .ok changed →
    ok record → ok changed)
  (hrun : ∀ deployment, Safe (upkeep ok) (fun _ _ => True) (Worker.run ext deployment) ())

include hpersisted happly hrun

theorem Step.upkept (h : Step ext office later) (hupkept : office.Upkept ok) : later.Upkept ok := by
  obtain ⟨hstore, hworker, hhandlers⟩ := hupkept
  cases h with
  | live hlive =>
      cases hlive with
      | answer hanswer =>
          have hnext := Safe.upkept hworker hpersisted hstore (.answer hanswer)
          exact ⟨hnext.2, hnext.1, hhandlers⟩
      | drift hdrift =>
          have hnext := Safe.upkept hworker hpersisted hstore (.drift hdrift)
          exact ⟨hnext.2, hnext.1, hhandlers⟩
      | unroll =>
          have hnext := Safe.upkept hworker hpersisted hstore .unroll
          exact ⟨hnext.2, hnext.1, hhandlers⟩
      | outside hmoves =>
          refine ⟨?_, hworker, hhandlers⟩
          rcases hmoves with hoperates | hstirs
          · exact hstore.operated hpersisted happly hoperates.operated
          · exact hstore.of_store (congrArg Ledger.store hstirs.1)
      | restart => exact ⟨hstore, hrun _, hhandlers⟩
  | arrive =>
      refine ⟨hstore, hworker, fun handler hhandler => ?_⟩
      rcases List.mem_cons.mp hhandler with rfl | hearlier
      · exact RecoveryAction.handle_upkept happly
      · exact hhandlers handler hearlier
  | @handle life earlier rest handler program world hstep =>
      have hhandler := hhandlers handler (List.mem_append_right _ List.mem_cons_self)
      obtain ⟨hnext, hafter⟩ := Safe.upkept hhandler hpersisted hstore hstep
      refine ⟨hafter, hworker, fun other hother => ?_⟩
      rcases List.mem_append.mp hother with hbefore | hrest
      · exact hhandlers other (List.mem_append_left _ hbefore)
      · rcases List.mem_cons.mp hrest with rfl | hrest
        · exact hnext
        · exact hhandlers other (List.mem_append_right _ (List.mem_cons_of_mem handler hrest))
  | restart =>
      exact ⟨hstore, hrun _, fun handler hhandler =>
        hhandlers handler (List.mem_of_mem_filter hhandler)⟩

theorem Reachable.upkept (h : office.Reachable ext) : office.Upkept ok := by
  obtain ⟨deployment, hruns⟩ := h
  induction hruns with
  | refl =>
      refine ⟨Ledger.holds_empty, hrun deployment, fun handler hhandler => ?_⟩
      exact absurd hhandler List.not_mem_nil
  | tail _ hstep ih => exact hstep.upkept hpersisted happly hrun ih

end

end Office

end PackageHarness
