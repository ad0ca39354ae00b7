/-
# PackageHarness.Storage.Alone — a call of the run store that nothing else interferes with.

The ledger takes an operation of the run store for one step. That is what a call does that runs
alone from its start to its answer, on a directory that earlier calls have left in any state they
could.
-/
import PackageHarness.Storage.Simulation
import PackageHarness.System.Ledger

namespace PackageHarness

open Interaction Files

section Alone

variable {C : Type}

/-! ## In the durable store -/

/-- No call is in progress. -/
def DurableStore.Idle (s : DurableStore C) : Prop :=
  ∀ caller, s.standing caller = .unused ∨ s.standing caller = .closed

/-- Only the call of `caller` is in progress, and this is what it has done to the store, where
it found `before`. -/
inductive Undisturbed (before : RunId → Option (Written C)) (caller : C) (op : StoreOperation)
    (s : DurableStore C) : Prop
  | pending : s.standing caller = .pending op → s.current = before →
      Undisturbed before caller op s
  | applied {record : RunRecord} {createOnly durable : Bool} : op = .write record createOnly →
      s.standing caller = .applied op durable →
      (createOnly = true → before record.id = none) →
      s.current record.id = some ⟨caller, record.persisted⟩ →
      (∀ run, run ≠ record.id → s.current run = before run) → Undisturbed before caller op s
  | refused {record : RunRecord} : op = .create record → s.standing caller = .refused op →
      before record.id ≠ none → s.current = before → Undisturbed before caller op s
  | found {run : RunId} : op = .get run → s.standing caller = .found run (before run) →
      s.current = before → Undisturbed before caller op s
  | listing : op = .loadAll → s.standing caller = .listing (fun run => before run ≠ none)
      (fun run w => before run = some w) → s.current = before → Undisturbed before caller op s

/-- No other call is in progress. -/
def DurableStore.OnlyCaller (s : DurableStore C) (caller : C) : Prop :=
  ∀ other, other ≠ caller → s.standing other = .unused ∨ s.standing other = .closed

variable [DecidableEq C] {s₀ s s' : DurableStore C} {before : RunId → Option (Written C)}
  {caller : C} {op : StoreOperation}

omit [DecidableEq C] in
theorem DurableStore.OnlyCaller.mine (h : s.OnlyCaller caller) {other : C} {standing : Standing C}
    (hstanding : s.standing other = standing) (hunused : standing ≠ .unused)
    (hover : standing ≠ .closed) : other = caller := by
  by_contra hother
  rcases h other hother with heq | heq
  · exact hunused (hstanding.symm.trans heq)
  · exact hover (hstanding.symm.trans heq)

theorem DurableStore.OnlyCaller.step (h : s.OnlyCaller caller) (hstep : s.Step none s') :
    s'.OnlyCaller caller := by
  have hset : ∀ {t : DurableStore C} {standing : Standing C}, t.OnlyCaller caller →
      (t.set caller standing).OnlyCaller caller := by
    intro t standing ht other hother
    rw [standing_set_of_ne t standing hother]
    exact ht other hother
  cases hstep with
  | @apply other record createOnly hpending _ =>
      have heq := h.mine hpending (by simp) (by simp)
      subst heq
      refine hset ?_
      intro another hother
      show (s.standing another).offer _ _ = _ ∨ (s.standing another).offer _ _ = _
      rcases h another hother with heq | heq <;> rw [heq] <;> simp [Standing.offer]
  | refuse hpending _ | look hpending =>
      have heq := h.mine hpending (by simp) (by simp)
      subst heq
      exact hset h
  | settle =>
      intro other hother
      show (s.standing other).settle = _ ∨ (s.standing other).settle = _
      rcases h other hother with heq | heq <;> rw [heq] <;> simp [Standing.settle]

omit [DecidableEq C] in
/-- The only call is pending where it has not taken effect. -/
theorem Undisturbed.of_pending {other : StoreOperation} (h : Undisturbed before caller op s)
    (hpending : s.standing caller = .pending other) : other = op ∧ s.current = before := by
  cases h with
  | pending hstanding hcurrent =>
      rw [hpending] at hstanding
      cases hstanding
      exact ⟨rfl, hcurrent⟩
  | applied _ hstanding _ _ _ | refused _ hstanding _ _ | found _ hstanding _
  | listing _ hstanding _ =>
      rw [hpending] at hstanding
      cases hstanding

/-- The next step of the only call. -/
theorem Undisturbed.step (h : Undisturbed before caller op s) (honly : s.OnlyCaller caller)
    (hstep : s.Step none s') : Undisturbed before caller op s' := by
  cases hstep with
  | @apply other record createOnly hpending hfree =>
      have heq := honly.mine hpending (by simp) (by simp)
      subst heq
      obtain ⟨rfl, hcurrent⟩ := h.of_pending hpending
      rw [hcurrent] at hfree
      refine .applied rfl (DurableStore.standing_set_same ..) hfree
        (DurableStore.current_put_same s other record) ?_
      intro run hrun
      rw [← hcurrent]
      exact DurableStore.current_put_of_ne s other hrun
  | @refuse other record hpending hvalue =>
      have heq := honly.mine hpending (by simp) (by simp)
      subst heq
      obtain ⟨rfl, hcurrent⟩ := h.of_pending hpending
      rw [hcurrent] at hvalue
      exact .refused rfl (DurableStore.standing_set_same ..) hvalue hcurrent
  | @look other run hpending =>
      have heq := honly.mine hpending (by simp) (by simp)
      subst heq
      obtain ⟨rfl, hcurrent⟩ := h.of_pending hpending
      refine .found rfl ?_ hcurrent
      rw [DurableStore.standing_set_same, hcurrent]
  | settle =>
      have hsettle : s.settle.standing caller = (s.standing caller).settle := rfl
      cases h with
      | pending hstanding hcurrent =>
          exact .pending (by rw [hsettle, hstanding]; rfl) hcurrent
      | applied hop hstanding hfree hnew hold =>
          exact .applied hop (by rw [hsettle, hstanding]; rfl) hfree hnew hold
      | refused hop hstanding hvalue hcurrent =>
          exact .refused hop (by rw [hsettle, hstanding]; rfl) hvalue hcurrent
      | found hop hstanding hcurrent =>
          exact .found hop (by rw [hsettle, hstanding]; rfl) hcurrent
      | listing hop hstanding hcurrent =>
          exact .listing hop (by rw [hsettle, hstanding]; rfl) hcurrent

theorem undisturbed_of_called (hidle : s₀.Idle)
    (hstep : s₀.Step (some (.called caller op)) s) :
    s.OnlyCaller caller ∧ Undisturbed s₀.current caller op s := by
  cases hstep with
  | call _ =>
      refine ⟨?_, ?_⟩
      · intro other hother
        rw [DurableStore.standing_set_of_ne s₀ _ hother]
        exact hidle other
      · cases op with
        | loadAll => exact .listing rfl (DurableStore.standing_set_same ..) rfl
        | write record createOnly => exact .pending (DurableStore.standing_set_same ..) rfl
        | get run => exact .pending (DurableStore.standing_set_same ..) rfl

/-! ## In the ledger -/

/-- The store of the ledger has what is current. -/
def Records (current : RunId → Option (Written C)) (store : RunStore) : Prop :=
  ∀ run, store run = (current run).map Written.record

/-- How the ledger takes an operation. -/
def StoreOperation.TakenBy (ledger : Ledger) : (op : StoreOperation) → op.Answer → Ledger → Prop
  | .create record, answer, after => ledger.Answers (.create record) answer after
  | .save record, answer, after => ∀ run site,
      ledger.Answers (.runner run (.save site record)) answer after
  | .get id, answer, after => ∀ run, ledger.Answers (.runner run (.get id)) answer after
  | .loadAll, answer, after => ledger.Answers .loadAll answer after

omit [DecidableEq C] in
theorem Records.write {store : RunStore} {record : RunRecord} (h : Records before store)
    (hnew : s.current record.id = some ⟨caller, record.persisted⟩)
    (hold : ∀ run, run ≠ record.id → s.current run = before run) :
    Records s.current (store.write record) := by
  intro run
  by_cases hrun : run = record.id
  · subst hrun
    rw [RunStore.write_same, hnew]
    rfl
  · rw [RunStore.write_of_ne store record hrun, h run, hold run hrun]

omit [DecidableEq C] in
theorem Records.same {store : RunStore} (h : Records before store) (hcurrent : s.current = before) :
    Records s.current store := by
  intro run
  rw [hcurrent]
  exact h run

/-- A write that fails may have left everything as it was. -/
theorem taken_unchanged (ledger : Ledger) (record : RunRecord) (createOnly : Bool)
    (error : StoreError) :
    (StoreOperation.write record createOnly).TakenBy ledger (.error error) ledger := by
  cases createOnly with
  | false => exact fun _ _ => ⟨Or.inl rfl, rfl⟩
  | true =>
      refine ⟨?_, rfl⟩
      unfold RunStore.Creates
      split
      · exact Or.inl rfl
      · exact ⟨rfl, error, rfl⟩

/-- A write that took effect may be answered either way. -/
theorem taken_written (ledger : Ledger) {record : RunRecord} {createOnly : Bool}
    (answer : Except StoreError Unit)
    (hfree : createOnly = true → ledger.store record.id = none) :
    (StoreOperation.write record createOnly).TakenBy ledger answer
      ⟨ledger.store.write record, ledger.preflight⟩ := by
  have hsaves : ledger.store.Saves record answer (ledger.store.write record) := by
    cases answer with
    | ok _ => rfl
    | error _ => exact Or.inr rfl
  cases createOnly with
  | false => exact fun _ _ => ⟨hsaves, rfl⟩
  | true =>
      refine ⟨?_, rfl⟩
      unfold RunStore.Creates
      rw [hfree rfl]
      exact hsaves

omit [DecidableEq C] in
/-- What a complete listing of an undisturbed store is. -/
theorem Records.lists {store : RunStore} {records : List RunRecord} (h : Records before store)
    (hlisted : Listed (fun run => before run ≠ none)
      (fun run w => before run = some w) records) : store.Lists records := by
  refine ⟨?_, hlisted.sorted⟩
  rw [List.perm_ext_iff_of_nodup (.of_map _ hlisted.once) (.of_map _ store.unique)]
  intro record
  rw [RunStore.mem_records, h]
  constructor
  · intro hrecord
    obtain ⟨w, hcurrent, hw⟩ := hlisted.offered record hrecord
    rw [hcurrent, Option.map_some, hw]
  · intro hvalue
    obtain ⟨w, hcurrent, rfl⟩ := Option.map_eq_some_iff.mp hvalue
    obtain ⟨other, hother, hid⟩ := hlisted.complete w.record.id (by simp [hcurrent])
    obtain ⟨w', hcurrent', rfl⟩ := hlisted.offered other hother
    rw [hid, hcurrent] at hcurrent'
    cases hcurrent'
    exact hother

omit [DecidableEq C] in
/-- What the only call is answered, the ledger may answer. -/
theorem Undisturbed.taken {ledger : Ledger} {answer : op.Answer}
    (h : Undisturbed before caller op s) (hrecords : Records before ledger.store)
    (hanswer : (s.standing caller).Justifies op answer) :
    ∃ after : Ledger, Records s.current after.store ∧ op.TakenBy ledger answer after := by
  cases op with
  | get run =>
      cases h with
      | applied hop _ _ _ _ | refused hop _ _ _ | listing hop _ _ => cases hop
      | pending hstanding hcurrent =>
          refine ⟨ledger, hrecords.same hcurrent, fun _ => ⟨rfl, ?_⟩⟩
          rintro value rfl
          obtain ⟨w, hfound, _⟩ := hanswer
          rw [hstanding] at hfound
          cases hfound
      | found hop hstanding hcurrent =>
          cases hop
          refine ⟨ledger, hrecords.same hcurrent, fun _ => ⟨rfl, ?_⟩⟩
          rintro value rfl
          obtain ⟨w, hfound, rfl⟩ := hanswer
          rw [hstanding] at hfound
          cases hfound
          exact (hrecords run).symm
  | loadAll =>
      cases h with
      | applied hop _ _ _ _ | refused hop _ _ _ | found hop _ _ => cases hop
      | pending hstanding hcurrent =>
          refine ⟨ledger, hrecords.same hcurrent, rfl, ?_⟩
          rintro records rfl
          obtain ⟨_, _, hlisting, _⟩ := hanswer
          rw [hstanding] at hlisting
          cases hlisting
      | listing _ hstanding hcurrent =>
          refine ⟨ledger, hrecords.same hcurrent, rfl, ?_⟩
          rintro records rfl
          obtain ⟨_, _, hlisting, hlisted⟩ := hanswer
          rw [hstanding] at hlisting
          cases hlisting
          exact hrecords.lists hlisted
  | write record createOnly =>
      cases h with
      | found hop _ _ | listing hop _ _ => cases hop
      | pending hstanding hcurrent | refused _ hstanding _ hcurrent =>
          cases answer with
          | ok _ =>
              have happlied := hstanding.symm.trans hanswer
              cases happlied
          | error error =>
              exact ⟨ledger, hrecords.same hcurrent, taken_unchanged ledger record createOnly error⟩
      | applied hop hstanding hfree hnew hold =>
          cases hop
          refine ⟨_, hrecords.write hnew hold, taken_written ledger answer ?_⟩
          intro hcreate
          rw [hrecords, hfree hcreate]
          rfl

omit [DecidableEq C] in
/-- However far the only call has come, it might have been answered and taken by the ledger. -/
theorem Undisturbed.taken_unanswered {ledger : Ledger} (h : Undisturbed before caller op s)
    (hrecords : Records before ledger.store) :
    ∃ (answer : op.Answer) (after : Ledger), Records s.current after.store ∧
      op.TakenBy ledger answer after := by
  have hunchanged : ∀ op : StoreOperation,
      ∃ answer : op.Answer, op.TakenBy ledger answer ledger := by
    intro op
    cases op with
    | write record createOnly => exact ⟨_, taken_unchanged ledger record createOnly (.io "")⟩
    | get run => exact ⟨.error (.io ""), fun _ => ⟨rfl, fun _ heq => by cases heq⟩⟩
    | loadAll => exact ⟨.error (.io ""), rfl, fun _ heq => by cases heq⟩
  cases h with
  | pending _ hcurrent | refused _ _ _ hcurrent | found _ _ hcurrent | listing _ _ hcurrent =>
      obtain ⟨answer, htaken⟩ := hunchanged op
      exact ⟨answer, ledger, hrecords.same hcurrent, htaken⟩
  | applied hop hstanding hfree hnew hold =>
      subst hop
      refine ⟨.ok (), _, hrecords.write hnew hold, taken_written ledger (.ok ()) ?_⟩
      intro hcreate
      rw [hrecords, hfree hcreate]
      rfl

/-! ## One call after the other -/

/-- A call that ran alone to its answer, or until the process died. -/
inductive StoreExchange (C : Type)
  | answered (caller : C) (op : StoreOperation) (answer : op.Answer)
  | cut (caller : C) (op : StoreOperation)

def StoreExchange.events : StoreExchange C → List (StoreEvent C)
  | answered caller op answer => [.called caller op, .answered caller op answer]
  | cut caller op => [.called caller op, .interrupted .process]

/-- How the ledger takes calls that come one after the other. -/
inductive Ledger.Takes : Ledger → List (StoreExchange C) → Ledger → Prop
  | none {ledger : Ledger} : Takes ledger [] ledger
  | answered {ledger between after : Ledger} {calls : List (StoreExchange C)} {caller : C}
      {op : StoreOperation} {answer : op.Answer} : Takes ledger calls between →
      op.TakenBy between answer after → Takes ledger (calls ++ [.answered caller op answer]) after
  | cut {ledger between after : Ledger} {calls : List (StoreExchange C)} {caller : C}
      {op : StoreOperation} {answer : op.Answer} : Takes ledger calls between →
      op.TakenBy between answer after → Takes ledger (calls ++ [.cut caller op]) after

theorem DurableStore.Idle.silent (hidle : s.Idle)
    (hrun : DurableStore.automaton.History s [] s') : s'.Idle ∧ s'.current = s.current := by
  refine hrun.keeps_silently (P := fun t => t.Idle ∧ t.current = s.current) ?_ ⟨hidle, rfl⟩
  rintro t t' ⟨ht, hcurrent⟩ hstep
  have hnot : ∀ {other : C} {standing : Standing C}, t.standing other = standing →
      standing ≠ .unused → standing ≠ .closed → False := by
    intro other standing hstanding hunused hover
    rcases ht other with heq | heq
    · exact hunused (hstanding.symm.trans heq)
    · exact hover (hstanding.symm.trans heq)
  cases hstep with
  | apply hpending _ | refuse hpending _ | look hpending =>
      exact (hnot hpending (by simp) (by simp)).elim
  | settle =>
      refine ⟨?_, hcurrent⟩
      intro other
      show (t.standing other).settle = _ ∨ (t.standing other).settle = _
      rcases ht other with heq | heq <;> rw [heq] <;> simp [Standing.settle]

/-- The only call of an idle store, to its last step. -/
theorem undisturbed_of_history (hidle : s₀.Idle) {last : StoreEvent C}
    (hrun : DurableStore.automaton.History s₀ [.called caller op, last] s') :
    ∃ s s'' : DurableStore C, s.OnlyCaller caller ∧ Undisturbed s₀.current caller op s ∧
      s.Step (some last) s'' ∧ DurableStore.automaton.History s'' [] s' := by
  obtain ⟨s₁, s₂, hsilent, hcall, hrest⟩ := hrun.at_event (h := [])
  obtain ⟨s₃, s₄, hwork, hlast, hend⟩ := hrest.at_event (h := [])
  obtain ⟨hidle₁, hcurrent⟩ := hidle.silent hsilent
  have hcalled := undisturbed_of_called hidle₁ hcall
  rw [hcurrent] at hcalled
  have hworked := hwork.keeps_silently
    (P := fun t => t.OnlyCaller caller ∧ Undisturbed s₀.current caller op t)
    (fun ht hstep => ⟨ht.1.step hstep, ht.2.step ht.1 hstep⟩) hcalled
  exact ⟨s₃, s₄, hworked.1, hworked.2, hlast, hend⟩

/-- One call that ran alone, taken by the ledger. -/
theorem taken_of_exchange {ledger : Ledger} {calls : List (StoreExchange C)} {between : Ledger}
    {exchange : StoreExchange C} (hidle : s₀.Idle) (hrecords : Records s₀.current between.store)
    (hrun : DurableStore.automaton.History s₀ exchange.events s')
    (htakes : ledger.Takes calls between) :
    s'.Idle ∧ ∃ after : Ledger, Records s'.current after.store ∧
      ledger.Takes (calls ++ [exchange]) after := by
  cases exchange with
  | answered caller op answer =>
      obtain ⟨s, s'', honly, hundisturbed, hlast, hend⟩ := undisturbed_of_history hidle hrun
      cases hlast with
      | answer hjustified =>
          have hidle'' : (s.set caller .closed).Idle := by
            intro other
            by_cases hother : other = caller
            · subst hother
              exact Or.inr (DurableStore.standing_set_same ..)
            · rw [DurableStore.standing_set_of_ne s _ hother]
              exact honly other hother
          obtain ⟨hidle', hcurrent⟩ := hidle''.silent hend
          obtain ⟨after, hafter, htaken⟩ := hundisturbed.taken hrecords hjustified
          rw [hcurrent]
          exact ⟨hidle', after, hafter, htakes.answered htaken⟩
  | cut caller op =>
      obtain ⟨s, s'', honly, hundisturbed, hlast, hend⟩ := undisturbed_of_history hidle hrun
      cases hlast with
      | crash =>
          have hidle'' : s.abandon.Idle := by
            intro other
            show (s.standing other).stop = _ ∨ (s.standing other).stop = _
            cases s.standing other <;> simp [Standing.stop]
          obtain ⟨hidle', hcurrent⟩ := hidle''.silent hend
          obtain ⟨answer, after, hafter, htaken⟩ := hundisturbed.taken_unanswered hrecords
          rw [hcurrent]
          exact ⟨hidle', after, hafter, htakes.cut htaken⟩

/-- Calls that come one after the other, taken by the ledger. -/
theorem takes_of_history {calls : List (StoreExchange C)}
    (hrun : DurableStore.automaton.History DurableStore.empty
      (calls.flatMap StoreExchange.events) s) :
    ∃ after : Ledger, Records s.current after.store ∧ Ledger.empty.Takes calls after := by
  suffices key : s.Idle ∧ ∃ after : Ledger, Records s.current after.store ∧
      Ledger.empty.Takes calls after from key.2
  induction calls using List.reverseRecOn generalizing s with
  | nil =>
      have hidle : (DurableStore.empty : DurableStore C).Idle := fun _ => Or.inl rfl
      obtain ⟨hidle', hcurrent⟩ := hidle.silent hrun
      rw [hcurrent]
      exact ⟨hidle', .empty, fun _ => rfl, .none⟩
  | append_singleton calls last ih =>
      rw [List.flatMap_append, List.flatMap_singleton] at hrun
      obtain ⟨t, hbefore, hlast⟩ := hrun.split
      obtain ⟨hidle, between, hrecords, htakes⟩ := ih hbefore
      exact taken_of_exchange hidle hrecords hlast htakes

/-! ## In the directory -/

/-- The files of the directory hold what the ledger has. -/
def Embodies {β : Type} (format : RecordFormat β) (v : Volume String β) (store : RunStore) : Prop :=
  ∀ run, match store run with
    | none => v.names (FileRunStore.fileName run) = none
    | some record => ∃ file, v.names (FileRunStore.fileName run) = some file ∧
        Frozen format v file record

omit [DecidableEq C] in
theorem stands_of_shows {β : Type} {format : RecordFormat β} {v : Volume String β}
    {store : RunStore} {current : RunId → Option (Written C)}
    (hshows : ∀ run, Exhibits format v run (v.names (FileRunStore.fileName run)) (current run))
    (hrecords : Records current store) : Embodies format v store := by
  intro run
  rw [hrecords run]
  have hrun := hshows run
  generalize v.names (FileRunStore.fileName run) = target at hrun ⊢
  generalize current run = value at hrun ⊢
  cases hrun with
  | absent => rfl
  | @file file w hfrozen _ => exact ⟨file, rfl, hfrozen⟩

end Alone

end PackageHarness
