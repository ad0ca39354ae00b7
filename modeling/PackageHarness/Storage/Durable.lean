/-
# PackageHarness.Storage.Durable — what the run store is for, as one atomic object.

Every write takes effect at one moment between its call and its answer, a read sees the state of one
such moment, and a listing sees each run at some moment of its own. A write that was answered as
done is durable: a power loss may take back the writes that took effect since the last settlement,
but none that was acknowledged. The values carry the caller that wrote them, for statements about
their order.
-/
import PackageHarness.Storage.File

namespace PackageHarness

open Interaction

/-- What ends the calls of a process: its own death, or the power's. -/
inductive Outage
  | process
  | power

abbrev StoreEvent (C : Type) := Event C StoreOperation StoreOperation.Answer Outage

/-- The stored form of a record, and the call that wrote it. -/
structure Written (C : Type) where
  writer : C
  record : RunRecord

/-- How far a call has come. -/
inductive Standing (C : Type)
  | unused
  | pending (op : StoreOperation)
  | applied (op : StoreOperation) (durable : Bool)
  | refused (op : StoreOperation)
  | found (run : RunId) (value : Option (Written C))
  /-- The runs that were there at the call, and the values that were current since. -/
  | listing (there : RunId → Prop) (offers : RunId → Written C → Prop)
  | closed

structure DurableStore (C : Type) where
  /-- The values that a power loss leaves in place. -/
  settled : RunId → Option (Written C)
  /-- The values written since, oldest first. -/
  recent : RunId → List (Written C)
  standing : C → Standing C

/-- A listing as it is answered: each run once, oldest first, none that was there left out. -/
structure Listed {C : Type} (there : RunId → Prop) (offers : RunId → Written C → Prop)
    (records : List RunRecord) : Prop where
  once : (records.map RunRecord.id).Nodup
  sorted : records.Pairwise fun earlier later => earlier.createdAt ≤ later.createdAt
  offered : ∀ record ∈ records, ∃ w, offers record.id w ∧ w.record = record
  complete : ∀ run, there run → ∃ record ∈ records, record.id = run

namespace Standing

variable {C : Type}

/-- The call is for this operation and has not been answered. -/
def Concerns (op : StoreOperation) : Standing C → Prop
  | pending other | applied other _ | refused other => other = op
  | found run _ => op = .get run
  | listing _ _ => op = .loadAll
  | unused | closed => False

/-- The answers that a call may be given. -/
def Justifies (standing : Standing C) : (op : StoreOperation) → op.Answer → Prop
  | .write record createOnly, .ok () => standing = .applied (.write record createOnly) true
  | .write record createOnly, .error .alreadyExists =>
      createOnly = true ∧ standing = .refused (.write record createOnly)
  | .write record createOnly, .error (.invalid _) => standing = .pending (.write record createOnly)
  | .write record createOnly, .error (.io _) => standing.Concerns (.write record createOnly)
  | .get run, .ok value => ∃ w, standing = .found run w ∧ value = w.map Written.record
  | .loadAll, .ok records => ∃ there offers, standing = .listing there offers ∧
      Listed there offers records
  -- a reader never comes upon a record that is not valid
  | .get run, .error error => (∃ message, error = .io message) ∧ standing.Concerns (.get run)
  | .loadAll, .error error => (∃ message, error = .io message) ∧ standing.Concerns .loadAll

def settle : Standing C → Standing C
  | applied op _ => applied op true
  | standing => standing

/-- A listing may show a value from the moment it is written. -/
def offer (run : RunId) (w : Written C) : Standing C → Standing C
  | listing there offers => listing there fun other v => offers other v ∨ other = run ∧ v = w
  | standing => standing

def stop : Standing C → Standing C
  | unused => unused
  | _ => closed

/-! ### How standings change -/

/-- What can happen to a standing while others work. -/
inductive Evolves : Standing C → Standing C → Prop
  | same {standing : Standing C} : Evolves standing standing
  | settled {op : StoreOperation} {durable : Bool} :
      Evolves (.applied op durable) (.applied op true)
  | offered {there : RunId → Prop} {offers offers' : RunId → Written C → Prop} :
      (∀ run w, offers run w → offers' run w) →
      Evolves (.listing there offers) (.listing there offers')

theorem evolves_settle (standing : Standing C) : Evolves standing standing.settle := by
  cases standing with
  | applied op durable => exact .settled
  | _ => exact .same

theorem evolves_offer (standing : Standing C) (run : RunId) (w : Written C) :
    Evolves standing (standing.offer run w) := by
  cases standing with
  | listing there offers => exact .offered fun _ _ h => Or.inl h
  | _ => exact .same

theorem Evolves.concerns {standing standing' : Standing C} (h : Evolves standing standing')
    (op : StoreOperation) (hop : standing.Concerns op) : standing'.Concerns op := by
  cases h <;> exact hop

/-- What a call may be answered, it may still be answered later. -/
theorem Evolves.justifies {standing standing' : Standing C} (h : Evolves standing standing')
    {op : StoreOperation} {answer : op.Answer} (hanswer : standing.Justifies op answer) :
    standing'.Justifies op answer := by
  cases op with
  | write record createOnly =>
      cases answer with
      | ok _ =>
          have hstanding : standing = .applied (.write record createOnly) true := hanswer
          subst hstanding
          cases h <;> rfl
      | error error =>
          cases error with
          | alreadyExists =>
              obtain ⟨hcreate, rfl⟩ := hanswer
              cases h
              exact ⟨hcreate, rfl⟩
          | io message => exact h.concerns (.write record createOnly) hanswer
          | invalid message =>
              have hstanding : standing = .pending (.write record createOnly) := hanswer
              subst hstanding
              cases h
              rfl
  | get run =>
      cases answer with
      | ok value =>
          obtain ⟨w, rfl, hvalue⟩ := hanswer
          cases h
          exact ⟨w, rfl, hvalue⟩
      | error error => exact ⟨hanswer.1, h.concerns _ hanswer.2⟩
  | loadAll =>
      cases answer with
      | ok records =>
          obtain ⟨there, offers, rfl, hlisted⟩ := hanswer
          cases h with
          | same => exact ⟨there, offers, rfl, hlisted⟩
          | offered hoffers =>
              refine ⟨there, _, rfl, hlisted.once, hlisted.sorted, ?_, hlisted.complete⟩
              intro record hrecord
              obtain ⟨w, hw, hvalue⟩ := hlisted.offered record hrecord
              exact ⟨w, hoffers _ _ hw, hvalue⟩
      | error error => exact ⟨hanswer.1, h.concerns _ hanswer.2⟩

/-- Only a call in progress is answered, and an outage ends it. -/
theorem stop_of_justifies {standing : Standing C} {op : StoreOperation} {answer : op.Answer}
    (h : standing.Justifies op answer) : standing.stop = .closed := by
  cases op with
  | write record createOnly =>
      cases answer with
      | ok _ =>
          have hstanding : standing = .applied (.write record createOnly) true := h
          rw [hstanding]
          rfl
      | error error =>
          cases error with
          | alreadyExists =>
              rw [h.2]
              rfl
          | io message =>
              have hconcerns : standing.Concerns (.write record createOnly) := h
              cases standing <;> first | rfl | exact hconcerns.elim
          | invalid message =>
              have hstanding : standing = .pending (.write record createOnly) := h
              rw [hstanding]
              rfl
  | get run =>
      cases answer with
      | ok value =>
          obtain ⟨_, rfl, _⟩ := h
          rfl
      | error error =>
          have hconcerns := h.2
          cases standing <;> first | rfl | exact hconcerns.elim
  | loadAll =>
      cases answer with
      | ok records =>
          obtain ⟨_, _, rfl, _⟩ := h
          rfl
      | error error =>
          have hconcerns := h.2
          cases standing <;> first | rfl | exact hconcerns.elim

end Standing

namespace DurableStore

variable {C : Type}

def empty : DurableStore C := ⟨fun _ => none, fun _ => [], fun _ => .unused⟩

def current (s : DurableStore C) (run : RunId) : Option (Written C) :=
  (s.recent run).getLast?.or (s.settled run)

/-- The standing of a call when it is made. -/
def received (s : DurableStore C) : StoreOperation → Standing C
  | .loadAll => .listing (fun run => s.current run ≠ none) fun run w => s.current run = some w
  | op => .pending op

/-- A write takes effect. -/
def put (s : DurableStore C) (caller : C) (record : RunRecord) : DurableStore C where
  settled := s.settled
  recent := Function.update s.recent record.id (s.recent record.id ++ [⟨caller, record.persisted⟩])
  standing other := (s.standing other).offer record.id ⟨caller, record.persisted⟩

@[simp] theorem recent_put_same (s : DurableStore C) (caller : C) (record : RunRecord) :
    (s.put caller record).recent record.id
      = s.recent record.id ++ [⟨caller, record.persisted⟩] :=
  Function.update_self ..

theorem recent_put_of_ne (s : DurableStore C) (caller : C) {record : RunRecord} {run : RunId}
    (h : run ≠ record.id) : (s.put caller record).recent run = s.recent run :=
  Function.update_of_ne h ..

/-- What has taken effect so far becomes durable. -/
def settle (s : DurableStore C) : DurableStore C where
  settled := s.current
  recent _ := []
  standing other := (s.standing other).settle

@[simp] theorem current_settle (s : DurableStore C) : s.settle.current = s.current := rfl

@[simp] theorem current_put_same (s : DurableStore C) (caller : C) (record : RunRecord) :
    (s.put caller record).current record.id = some ⟨caller, record.persisted⟩ := by
  simp [current]

theorem current_put_of_ne (s : DurableStore C) (caller : C) {record : RunRecord} {run : RunId}
    (h : run ≠ record.id) : (s.put caller record).current run = s.current run := by
  simp only [current, recent_put_of_ne s caller h]
  rfl

/-- The calls of a process that died are over. -/
def abandon (s : DurableStore C) : DurableStore C :=
  { s with standing := fun other => (s.standing other).stop }

/-- What a power loss leaves: of each run the settled value, or one written since. -/
structure LosesPower (s after : DurableStore C) : Prop where
  settled : ∀ run, after.settled run = s.settled run ∨
    ∃ w ∈ s.recent run, after.settled run = some w
  recent : ∀ run, after.recent run = []
  standing : ∀ other, after.standing other = (s.standing other).stop

variable [DecidableEq C]

def set (s : DurableStore C) (caller : C) (standing : Standing C) : DurableStore C :=
  { s with standing := Function.update s.standing caller standing }

@[simp] theorem standing_set_same (s : DurableStore C) (caller : C) (standing : Standing C) :
    (s.set caller standing).standing caller = standing :=
  Function.update_self ..

theorem standing_set_of_ne (s : DurableStore C) {caller other : C} (standing : Standing C)
    (h : other ≠ caller) : (s.set caller standing).standing other = s.standing other :=
  Function.update_of_ne h ..

@[simp] theorem current_set (s : DurableStore C) (caller : C) (standing : Standing C) :
    (s.set caller standing).current = s.current := rfl

inductive Step (s : DurableStore C) : Option (StoreEvent C) → DurableStore C → Prop
  | call {caller : C} {op : StoreOperation} : s.standing caller = .unused →
      Step s (some (.called caller op)) (s.set caller (s.received op))
  | apply {caller : C} {record : RunRecord} {createOnly : Bool} :
      s.standing caller = .pending (.write record createOnly) →
      (createOnly = true → s.current record.id = none) →
      Step s none ((s.put caller record).set caller (.applied (.write record createOnly) false))
  | refuse {caller : C} {record : RunRecord} :
      s.standing caller = .pending (.create record) → s.current record.id ≠ none →
      Step s none (s.set caller (.refused (.create record)))
  | look {caller : C} {run : RunId} : s.standing caller = .pending (.get run) →
      Step s none (s.set caller (.found run (s.current run)))
  | settle : Step s none s.settle
  | answer {caller : C} {op : StoreOperation} {answer : op.Answer} :
      (s.standing caller).Justifies op answer →
      Step s (some (.answered caller op answer)) (s.set caller .closed)
  | crash : Step s (some (.interrupted .process)) s.abandon
  | powerLoss {after : DurableStore C} : s.LosesPower after →
      Step s (some (.interrupted .power)) after

/-- A listing may show what is current, and what was there at its call still is. -/
def Offering (s : DurableStore C) : Prop :=
  ∀ caller there offers, s.standing caller = .listing there offers →
    (∀ run w, s.current run = some w → offers run w) ∧ ∀ run, there run → s.current run ≠ none

omit [DecidableEq C] in
theorem Offering.stop {s s' : DurableStore C}
    (hstanding : ∀ other, s'.standing other = (s.standing other).stop) : s'.Offering := by
  intro caller there offers hlisting
  rw [hstanding] at hlisting
  cases hcaller : s.standing caller <;> rw [hcaller] at hlisting <;> cases hlisting

theorem Offering.set {s : DurableStore C} (h : s.Offering) {caller : C} {standing : Standing C}
    (hstanding : ∀ there offers, standing = .listing there offers →
      (∀ run w, s.current run = some w → offers run w) ∧ ∀ run, there run → s.current run ≠ none) :
    (s.set caller standing).Offering := by
  intro other there offers hlisting
  by_cases hother : other = caller
  · subst hother
    rw [standing_set_same] at hlisting
    exact hstanding there offers hlisting
  · rw [standing_set_of_ne s standing hother] at hlisting
    exact h other there offers hlisting

omit [DecidableEq C] in
theorem Offering.put {s : DurableStore C} (h : s.Offering) (caller : C) (record : RunRecord) :
    (s.put caller record).Offering := by
  intro other there offers' hlisting
  have hstanding : (s.standing other).offer record.id ⟨caller, record.persisted⟩
      = .listing there offers' := hlisting
  cases hother : s.standing other with
  | listing there' offers =>
      rw [hother] at hstanding
      cases hstanding
      refine ⟨?_, ?_⟩
      · intro run w hcurrent
        by_cases hrun : run = record.id
        · subst hrun
          rw [current_put_same] at hcurrent
          cases hcurrent
          exact Or.inr ⟨rfl, rfl⟩
        · rw [current_put_of_ne s caller hrun] at hcurrent
          exact Or.inl ((h other _ offers hother).1 run w hcurrent)
      · intro run hthere
        by_cases hrun : run = record.id
        · subst hrun
          simp
        · rw [current_put_of_ne s caller hrun]
          exact (h other _ offers hother).2 run hthere
  | _ =>
      rw [hother] at hstanding
      cases hstanding

theorem Step.offering {s s' : DurableStore C} {e : Option (StoreEvent C)} (hs : s.Offering)
    (h : s.Step e s') : s'.Offering := by
  cases h with
  | @call caller op _ =>
      refine hs.set ?_
      intro there offers hlisting
      cases op with
      | loadAll =>
          cases hlisting
          exact ⟨fun _ _ h => h, fun _ h => h⟩
      | write record createOnly => cases hlisting
      | get run => cases hlisting
  | apply _ _ =>
      refine Offering.set (hs.put _ _) ?_
      intro there offers hlisting
      cases hlisting
  | refuse _ _ | look _ | answer _ =>
      refine hs.set ?_
      intro there offers hlisting
      cases hlisting
  | settle =>
      intro other there offers hlisting
      have hstanding : (s.standing other).settle = .listing there offers := hlisting
      cases hother : s.standing other with
      | listing there' offers' =>
          rw [hother] at hstanding
          cases hstanding
          exact hs other there offers hother
      | _ =>
          rw [hother] at hstanding
          cases hstanding
  | crash => exact Offering.stop (s := s) fun _ => rfl
  | powerLoss h => exact Offering.stop h.standing

def automaton : Automaton (DurableStore C) (StoreEvent C) := ⟨Step⟩

end DurableStore

end PackageHarness
