/-
# PackageHarness.Storage.Durability — what the callers of a durable store can rely on.

The values are ordered by the calls that wrote them. Once a write has been answered as done, its run
never goes back to a value of a call that was over before the write was called: not in the store,
whatever outages follow, and not in what a later reader is shown.
-/
import PackageHarness.Storage.Durable

namespace PackageHarness

open Interaction

section Durability

variable {C : Type} [DecidableEq C] {s s' : DurableStore C} {h h₁ h₂ h₃ : List (StoreEvent C)}

/-- The call had been answered, or was cut off by an outage. -/
def Ceased (h : List (StoreEvent C)) (caller : C) : Prop :=
  (∃ op answer, Event.answered caller op answer ∈ h) ∨
    ∃ before op after kind, h = before ++ .called caller op :: after ∧ .interrupted kind ∈ after

/-- The value is what some call was asked to write for the run. -/
def Wrote (h : List (StoreEvent C)) (run : RunId) (w : Written C) : Prop :=
  ∃ record createOnly, Event.called w.writer (.write record createOnly) ∈ h ∧ record.id = run ∧
    w.record = record.persisted

/-! ## Where values come from -/

/-- Every value in the store, or in the hands of a reader, was written by a call. -/
structure Accounted (h : List (StoreEvent C)) (s : DurableStore C) : Prop where
  stored : ∀ {run w}, s.settled run = some w ∨ w ∈ s.recent run → Wrote h run w
  asked : ∀ {caller op}, (s.standing caller).Concerns op → .called caller op ∈ h
  found : ∀ {caller run w}, s.standing caller = .found run (some w) → Wrote h run w
  offered : ∀ {caller there offers run w}, s.standing caller = .listing there offers →
    offers run w → Wrote h run w

omit [DecidableEq C] in
theorem Wrote.mono {run : RunId} {w : Written C} (hw : Wrote h run w)
    (hsub : h ⊆ h₁) : Wrote h₁ run w := by
  obtain ⟨record, createOnly, hcalled, hid, hvalue⟩ := hw
  exact ⟨record, createOnly, hsub hcalled, hid, hvalue⟩

omit [DecidableEq C] in
theorem Accounted.current (ha : Accounted h s) {run : RunId} {w : Written C}
    (hcurrent : s.current run = some w) : Wrote h run w := by
  rw [DurableStore.current, Option.or_eq_some_iff] at hcurrent
  rcases hcurrent with hlast | ⟨_, hsettled⟩
  · exact ha.stored (Or.inr (List.mem_of_getLast? hlast))
  · exact ha.stored (Or.inl hsettled)

/-- The standing of one call has changed. -/
theorem Accounted.set (ha : Accounted h s) {caller : C} {standing : Standing C}
    (hsub : h ⊆ h₁) (hasked : ∀ op, standing.Concerns op → .called caller op ∈ h₁)
    (hfound : ∀ run w, standing = .found run (some w) → Wrote h₁ run w)
    (hoffered : ∀ there offers run w, standing = .listing there offers → offers run w →
      Wrote h₁ run w) : Accounted h₁ (s.set caller standing) where
  stored hw := (ha.stored hw).mono hsub
  asked := by
    intro other op hop
    by_cases hother : other = caller
    · subst hother
      rw [DurableStore.standing_set_same] at hop
      exact hasked op hop
    · rw [DurableStore.standing_set_of_ne s _ hother] at hop
      exact hsub (ha.asked hop)
  found := by
    intro other run w hother
    by_cases heq : other = caller
    · subst heq
      rw [DurableStore.standing_set_same] at hother
      exact hfound run w hother
    · rw [DurableStore.standing_set_of_ne s _ heq] at hother
      exact (ha.found hother).mono hsub
  offered := by
    intro other there offers run w hother hw
    by_cases heq : other = caller
    · subst heq
      rw [DurableStore.standing_set_same] at hother
      exact hoffered there offers run w hother hw
    · rw [DurableStore.standing_set_of_ne s _ heq] at hother
      exact (ha.offered hother hw).mono hsub

omit [DecidableEq C] in
/-- A write has taken effect. -/
theorem Accounted.put (ha : Accounted h s) {caller : C} {record : RunRecord} {createOnly : Bool}
    (hcalled : .called caller (.write record createOnly) ∈ h) :
    Accounted h (s.put caller record) := by
  have hnew : Wrote h record.id ⟨caller, record.persisted⟩ :=
    ⟨record, createOnly, hcalled, rfl, rfl⟩
  have hstanding : ∀ other, (s.put caller record).standing other
      = (s.standing other).offer record.id ⟨caller, record.persisted⟩ := fun _ => rfl
  refine ⟨?_, ?_, ?_, ?_⟩
  · intro run w hw
    by_cases hrun : run = record.id
    · subst hrun
      rw [DurableStore.recent_put_same, List.mem_append, List.mem_singleton] at hw
      rcases hw with hsettled | hrecent | rfl
      · exact ha.stored (Or.inl hsettled)
      · exact ha.stored (Or.inr hrecent)
      · exact hnew
    · rw [DurableStore.recent_put_of_ne s caller hrun] at hw
      exact ha.stored hw
  · intro other op hop
    rw [hstanding] at hop
    refine ha.asked ?_
    cases hother : s.standing other <;> rw [hother] at hop <;> exact hop
  · intro other run w hother
    rw [hstanding] at hother
    cases hcase : s.standing other with
    | found run' value =>
        rw [hcase] at hother
        exact ha.found (hcase.trans hother)
    | _ =>
        rw [hcase] at hother
        cases hother
  · intro other there offers' run w hother hw
    rw [hstanding] at hother
    cases hcase : s.standing other with
    | listing there' offers =>
        rw [hcase] at hother
        cases hother
        rcases hw with hw | ⟨rfl, rfl⟩
        · exact ha.offered hcase hw
        · exact hnew
    | _ =>
        rw [hcase] at hother
        cases hother

omit [DecidableEq C] in
/-- Outages and settlements bring nothing new. -/
theorem Accounted.same (ha : Accounted h s) (hsub : h ⊆ h₁)
    (hstored : ∀ {run w}, s'.settled run = some w ∨ w ∈ s'.recent run →
      s.settled run = some w ∨ w ∈ s.recent run)
    (hstanding : ∀ caller, s'.standing caller = (s.standing caller).settle ∨
      s'.standing caller = (s.standing caller).stop) : Accounted h₁ s' := by
  refine ⟨fun hw => (ha.stored (hstored hw)).mono hsub, ?_, ?_, ?_⟩
  · intro caller op hop
    refine hsub (ha.asked ?_)
    rcases hstanding caller with heq | heq <;> rw [heq] at hop <;>
      cases hcase : s.standing caller <;> rw [hcase] at hop <;> first | exact hop | exact hop.elim
  · intro caller run w hfound
    rcases hstanding caller with heq | heq <;> rw [heq] at hfound <;>
      cases hcase : s.standing caller <;> rw [hcase] at hfound <;> cases hfound
    exact (ha.found hcase).mono hsub
  · intro caller there offers run w hlisting hw
    rcases hstanding caller with heq | heq <;> rw [heq] at hlisting <;>
      cases hcase : s.standing caller <;> rw [hcase] at hlisting <;> cases hlisting
    exact (ha.offered hcase hw).mono hsub

theorem Accounted.step {e : Option (StoreEvent C)} (ha : Accounted h s) (hstep : s.Step e s') :
    Accounted (h ++ e.toList) s' := by
  have hsub : h ⊆ h ++ e.toList := List.subset_append_left _ _
  cases hstep with
  | @call caller op hunused =>
      refine ha.set hsub ?_ ?_ ?_
      · intro other hother
        have heq : op = other := by
          cases op with
          | loadAll => exact hother.symm
          | write record createOnly => exact hother
          | get run => exact hother
        simp [heq]
      · intro run w hfound
        cases op <;> cases hfound
      · intro there offers run w hlisting hw
        cases op <;> cases hlisting
        exact (ha.current hw).mono hsub
  | @apply caller record createOnly hpending _ =>
      have hcalled : .called caller (.write record createOnly) ∈ h :=
        ha.asked (by rw [hpending]; rfl)
      refine (ha.put hcalled).set hsub ?_ ?_ ?_
      · rintro op rfl
        exact hsub hcalled
      · intro run w hfound
        cases hfound
      · intro there offers run w hlisting _
        cases hlisting
  | @refuse caller record hpending _ =>
      refine ha.set hsub ?_ ?_ ?_
      · rintro op rfl
        exact hsub (ha.asked (by rw [hpending]; rfl))
      · intro run w hfound
        cases hfound
      · intro there offers run w hlisting _
        cases hlisting
  | @look caller run hpending =>
      refine ha.set hsub ?_ ?_ ?_
      · rintro op rfl
        exact hsub (ha.asked (by rw [hpending]; rfl))
      · intro run' w hfound
        rw [Standing.found.injEq] at hfound
        obtain ⟨rfl, hcurrent⟩ := hfound
        exact (ha.current hcurrent).mono hsub
      · intro there offers run w hlisting _
        cases hlisting
  | settle =>
      refine ha.same hsub ?_ fun _ => Or.inl rfl
      intro run w hw
      rcases hw with hcurrent | hnone
      · have hcurrent : s.current run = some w := hcurrent
        rw [DurableStore.current, Option.or_eq_some_iff] at hcurrent
        rcases hcurrent with hlast | ⟨_, hsettled⟩
        · exact Or.inr (List.mem_of_getLast? hlast)
        · exact Or.inl hsettled
      · cases hnone
  | answer _ =>
      refine ha.set hsub ?_ ?_ ?_
      · intro op hop
        exact hop.elim
      · intro run w hfound
        cases hfound
      · intro there offers run w hlisting _
        cases hlisting
  | crash => exact ha.same hsub (fun hw => hw) fun _ => Or.inr rfl
  | powerLoss hlost =>
      refine ha.same hsub ?_ fun caller => Or.inr (hlost.standing caller)
      intro run w hw
      rw [hlost.recent] at hw
      rcases hw with hsettled | hnone
      · rcases hlost.settled run with heq | ⟨w', hw', heq⟩
        · rw [heq] at hsettled
          exact Or.inl hsettled
        · rw [heq] at hsettled
          cases hsettled
          exact Or.inr hw'
      · cases hnone

omit [DecidableEq C] in
theorem accounted_empty : Accounted ([] : List (StoreEvent C)) DurableStore.empty where
  stored hw := by simp [DurableStore.empty] at hw
  asked hop := hop.elim
  found hfound := by cases hfound
  offered hlisting := by cases hlisting

theorem accounted_of_history (hrun : DurableStore.automaton.History DurableStore.empty h s) :
    Accounted h s :=
  hrun.invariant (fun ha hstep => ha.step hstep) accounted_empty

/-! ## What has ended stays so -/

theorem DurableStore.Step.closed {e : Option (StoreEvent C)} (hstep : s.Step e s') {caller : C}
    (h : s.standing caller = .closed) : s'.standing caller = .closed := by
  have hset : ∀ {t : DurableStore C} {other : C} {standing : Standing C},
      t.standing caller = .closed → t.standing other ≠ .closed →
      (t.set other standing).standing caller = .closed := by
    intro t other standing hover hother
    have hne : caller ≠ other := by
      rintro rfl
      exact hother hover
    rw [standing_set_of_ne t standing hne]
    exact hover
  cases hstep with
  | call hunused =>
      refine hset h ?_
      rw [hunused]
      simp
  | @apply other record createOnly hpending _ =>
      have hput : ∀ {c : C}, (s.put other record).standing c
          = (s.standing c).offer record.id ⟨other, record.persisted⟩ := rfl
      refine hset ?_ ?_
      · rw [hput, h]
        rfl
      · rw [hput, hpending]
        simp [Standing.offer]
  | refuse hpending _ | look hpending =>
      refine hset h ?_
      rw [hpending]
      simp
  | settle =>
      show (s.standing caller).settle = _
      rw [h]
      rfl
  | @answer other op answer hjustified =>
      by_cases hother : caller = other
      · rw [hother, standing_set_same]
      · rw [standing_set_of_ne s _ hother]
        exact h
  | crash =>
      show (s.standing caller).stop = _
      rw [h]
      rfl
  | powerLoss hlost =>
      rw [hlost.standing, h]
      rfl

/-- No step takes a call back. -/
theorem DurableStore.Step.unused {e : Option (StoreEvent C)} (hstep : s.Step e s') {caller : C}
    (h : s'.standing caller = .unused) : s.standing caller = .unused := by
  have hset : ∀ {t : DurableStore C} {other : C} {standing : Standing C}, standing ≠ .unused →
      (t.set other standing).standing caller = .unused → t.standing caller = .unused := by
    intro t other standing hstanding hunused
    by_cases hother : caller = other
    · rw [hother, standing_set_same] at hunused
      exact absurd hunused hstanding
    · rwa [standing_set_of_ne t standing hother] at hunused
  cases hstep with
  | @call other op _ =>
      refine hset ?_ h
      cases op <;> simp [received]
  | apply _ _ =>
      have hput := hset (by simp) h
      change (s.standing caller).offer _ _ = .unused at hput
      cases hcase : s.standing caller <;> rw [hcase] at hput <;> first | rfl | cases hput
  | refuse _ _ | look _ | answer _ => exact hset (by simp) h
  | settle =>
      change (s.standing caller).settle = .unused at h
      cases hcase : s.standing caller <;> rw [hcase] at h <;> first | rfl | cases h
  | crash =>
      change (s.standing caller).stop = .unused at h
      cases hcase : s.standing caller <;> rw [hcase] at h <;> first | rfl | cases h
  | powerLoss hlost =>
      rw [hlost.standing] at h
      cases hcase : s.standing caller <;> rw [hcase] at h <;> first | rfl | cases h

/-- What can become of a call that has not taken effect yet. -/
theorem DurableStore.Step.of_pending {e : Option (StoreEvent C)} {op : StoreOperation}
    (hstep : s.Step e s') {caller : C} (h : s.standing caller = .pending op) :
    s'.standing caller = .pending op ∨ s'.standing caller = .closed ∨
      s'.standing caller = .refused op ∨
      (∃ run, op = .get run ∧ s'.standing caller = .found run (s.current run)) ∨
      ∃ record createOnly, op = .write record createOnly ∧
        s' = (s.put caller record).set caller (.applied op false) := by
  cases hstep with
  | @call other op' hunused =>
      have hne : caller ≠ other := by
        rintro rfl
        rw [h] at hunused
        cases hunused
      left
      rw [standing_set_of_ne s _ hne, h]
  | @apply other record createOnly hpending _ =>
      by_cases heq : caller = other
      · subst heq
        rw [h] at hpending
        cases hpending
        exact Or.inr (Or.inr (Or.inr (Or.inr ⟨record, createOnly, rfl, rfl⟩)))
      · left
        rw [standing_set_of_ne _ _ heq]
        show (s.standing caller).offer _ _ = _
        rw [h]
        rfl
  | @refuse other record hpending _ =>
      by_cases heq : caller = other
      · subst heq
        rw [h] at hpending
        cases hpending
        exact Or.inr (Or.inr (Or.inl (standing_set_same ..)))
      · left
        rw [standing_set_of_ne s _ heq, h]
  | @look other run hpending =>
      by_cases heq : caller = other
      · subst heq
        rw [h] at hpending
        cases hpending
        exact Or.inr (Or.inr (Or.inr (Or.inl ⟨run, rfl, standing_set_same ..⟩)))
      · left
        rw [standing_set_of_ne s _ heq, h]
  | settle =>
      left
      show (s.standing caller).settle = _
      rw [h]
      rfl
  | @answer other op' answer _ =>
      by_cases heq : caller = other
      · subst heq
        exact Or.inr (Or.inl (standing_set_same ..))
      · left
        rw [standing_set_of_ne s _ heq, h]
  | crash =>
      right
      left
      show (s.standing caller).stop = _
      rw [h]
      rfl
  | powerLoss hlost =>
      right
      left
      rw [hlost.standing, h]
      rfl

/-- A call that has taken effect, or is a listing, only evolves until it is over. -/
theorem DurableStore.Step.evolves {e : Option (StoreEvent C)} (hstep : s.Step e s') {caller : C}
    (hused : s.standing caller ≠ .unused) (hpending : ∀ op, s.standing caller ≠ .pending op) :
    (s.standing caller).Evolves (s'.standing caller) ∨ s'.standing caller = .closed := by
  have hset : ∀ {t : DurableStore C} {other : C} {standing : Standing C}, caller ≠ other →
      (s.standing caller).Evolves (t.standing caller) →
      (s.standing caller).Evolves ((t.set other standing).standing caller) := by
    intro t other standing hne h
    rw [standing_set_of_ne t _ hne]
    exact h
  have hstopped : (s.standing caller).stop = .closed := by
    cases hcase : s.standing caller with
    | unused => exact absurd hcase hused
    | _ => rfl
  cases hstep with
  | call hunused => exact Or.inl (hset (by rintro rfl; exact hused hunused) .same)
  | apply h _ =>
      exact Or.inl (hset (by rintro rfl; exact hpending _ h) (Standing.evolves_offer _ _ _))
  | refuse h _ | look h => exact Or.inl (hset (by rintro rfl; exact hpending _ h) .same)
  | settle => exact Or.inl (Standing.evolves_settle _)
  | @answer other op answer _ =>
      by_cases heq : caller = other
      · exact Or.inr (heq ▸ standing_set_same ..)
      · exact Or.inl (hset heq .same)
  | crash => exact Or.inr hstopped
  | powerLoss hlost => exact Or.inr ((hlost.standing caller).trans hstopped)

/-- A listing is offered nothing but what a call in progress writes. -/
theorem DurableStore.Step.of_listing {e : Option (StoreEvent C)} {there : RunId → Prop}
    {offers : RunId → Written C → Prop} (hstep : s.Step e s') {caller : C}
    (h : s.standing caller = .listing there offers) :
    s'.standing caller = .closed ∨ ∃ offers', s'.standing caller = .listing there offers' ∧
      ∀ run w, offers' run w → offers run w ∨ ∃ op, s.standing w.writer = .pending op := by
  have hset : ∀ {other : C} {standing : Standing C}, caller ≠ other →
      ∃ offers', (s.set other standing).standing caller = .listing there offers' ∧
        ∀ run w, offers' run w → offers run w ∨ ∃ op, s.standing w.writer = .pending op := by
    intro other standing hne
    rw [standing_set_of_ne s _ hne]
    exact ⟨offers, h, fun _ _ hw => Or.inl hw⟩
  have hother : ∀ {other : C} {standing : Standing C}, s.standing other = standing →
      standing ≠ .listing there offers → caller ≠ other := by
    rintro other standing hstanding hne rfl
    exact hne (hstanding.symm.trans h)
  cases hstep with
  | call hunused => exact Or.inr (hset (hother hunused (by simp)))
  | @apply other record createOnly hpending _ =>
      right
      refine ⟨fun run w => offers run w ∨ run = record.id ∧ w = ⟨other, record.persisted⟩, ?_, ?_⟩
      · rw [standing_set_of_ne _ _ (hother hpending (by simp))]
        show (s.standing caller).offer _ _ = _
        rw [h]
        rfl
      · rintro run w (hw | ⟨_, rfl⟩)
        · exact Or.inl hw
        · exact Or.inr ⟨_, hpending⟩
  | refuse hpending _ | look hpending => exact Or.inr (hset (hother hpending (by simp)))
  | settle =>
      right
      refine ⟨offers, ?_, fun _ _ hw => Or.inl hw⟩
      show (s.standing caller).settle = _
      rw [h]
      rfl
  | @answer other op answer _ =>
      by_cases heq : caller = other
      · exact Or.inl (heq ▸ standing_set_same ..)
      · exact Or.inr (hset heq)
  | crash =>
      left
      show (s.standing caller).stop = _
      rw [h]
      rfl
  | powerLoss hlost =>
      left
      rw [hlost.standing, h]
      rfl

/-- A call that was made is not unused, and one that was answered is over. -/
theorem called_or_answered {start : DurableStore C}
    (hrun : DurableStore.automaton.History start h s) (caller : C) :
    ((∃ op, .called caller op ∈ h) → s.standing caller ≠ .unused) ∧
      ((∃ op answer, .answered caller op answer ∈ h) → s.standing caller = .closed) := by
  refine hrun.invariant (P := fun h s =>
    ((∃ op, .called caller op ∈ h) → s.standing caller ≠ .unused) ∧
      ((∃ op answer, .answered caller op answer ∈ h) → s.standing caller = .closed))
    ?_ ⟨by simp, by simp⟩
  intro h t e t' ih hstep
  refine ⟨?_, ?_⟩
  · rintro ⟨op, hcalled⟩ hunused
    rcases List.mem_append.mp hcalled with hold | hnew
    · exact ih.1 ⟨op, hold⟩ (hstep.unused hunused)
    · have he : e = some (.called caller op) := by simpa using hnew
      subst he
      cases hstep with
      | call _ =>
          rw [DurableStore.standing_set_same] at hunused
          cases op <;> cases hunused
  · rintro ⟨op, answer, hanswered⟩
    rcases List.mem_append.mp hanswered with hold | hnew
    · exact hstep.closed (ih.2 ⟨op, answer, hold⟩)
    · have he : e = some (.answered caller op answer) := by simpa using hnew
      subst he
      cases hstep with
      | answer _ => rw [DurableStore.standing_set_same]

theorem DurableStore.Step.over_of_interrupted {kind : Outage}
    (hstep : s.Step (some (.interrupted kind)) s') {caller : C}
    (h : s.standing caller ≠ .unused) : s'.standing caller = .closed := by
  have hstop : (s.standing caller).stop = .closed := by
    cases hcase : s.standing caller with
    | unused => exact absurd hcase h
    | _ => rfl
  cases hstep with
  | crash => exact hstop
  | powerLoss hlost =>
      rw [hlost.standing]
      exact hstop

theorem over_of_finished {start : DurableStore C}
    (hrun : DurableStore.automaton.History start h s) {caller : C} (hfinished : Ceased h caller) :
    s.standing caller = .closed := by
  rcases hfinished with hanswered | ⟨before, op, after, kind, rfl, hkind⟩
  · exact (called_or_answered hrun caller).2 hanswered
  · obtain ⟨first, second, rfl⟩ := List.append_of_mem hkind
    rw [← List.cons_append, ← List.append_assoc] at hrun
    obtain ⟨t, t', hbefore, hstep, hafter⟩ := hrun.at_event
    have hused := (called_or_answered hbefore caller).1 ⟨op, by simp⟩
    exact hafter.keeps (P := fun s => s.standing caller = .closed)
      (fun hover hlater => DurableStore.Step.closed hlater hover) (hstep.over_of_interrupted hused)

/-! ## The order of the values -/

/-- Only callers outside `old` have values that the run may still show. -/
structure Beyond (old : C → Prop) (run : RunId) (s : DurableStore C) : Prop where
  closed : ∀ {caller}, old caller → s.standing caller = .closed
  settled : ∃ w, s.settled run = some w ∧ ¬ old w.writer
  recent : ∀ w ∈ s.recent run, ¬ old w.writer

variable {old : C → Prop} {run : RunId}

omit [DecidableEq C] in
theorem Beyond.current (hb : Beyond old run s) : ∃ w, s.current run = some w ∧ ¬ old w.writer := by
  obtain ⟨w, hsettled, hw⟩ := hb.settled
  rw [DurableStore.current]
  cases hlast : (s.recent run).getLast? with
  | none => exact ⟨w, hsettled, hw⟩
  | some last => exact ⟨last, rfl, hb.recent last (List.mem_of_getLast? hlast)⟩

theorem Beyond.step {e : Option (StoreEvent C)} (hb : Beyond old run s) (hstep : s.Step e s') :
    Beyond old run s' := by
  have hover : ∀ {caller}, old caller → s'.standing caller = .closed :=
    fun hold => hstep.closed (hb.closed hold)
  cases hstep with
  | call _ | refuse _ _ | look _ | answer _ | crash => exact ⟨hover, hb.settled, hb.recent⟩
  | @apply caller record createOnly hpending _ =>
      refine ⟨hover, hb.settled, ?_⟩
      intro w hw
      change w ∈ (s.put caller record).recent run at hw
      by_cases hrun : run = record.id
      · subst hrun
        rw [DurableStore.recent_put_same, List.mem_append, List.mem_singleton] at hw
        rcases hw with hw | rfl
        · exact hb.recent w hw
        · -- a call that writes is not over
          intro hold
          have hstanding := hb.closed hold
          rw [hpending] at hstanding
          cases hstanding
      · rw [DurableStore.recent_put_of_ne s caller hrun] at hw
        exact hb.recent w hw
  | settle => exact ⟨hover, hb.current, fun _ hw => by cases hw⟩
  | powerLoss hlost =>
      refine ⟨hover, ?_, fun w hw => by rw [hlost.recent] at hw; cases hw⟩
      rcases hlost.settled run with heq | ⟨w, hw, heq⟩
      · rw [heq]
        exact hb.settled
      · exact ⟨w, heq, hb.recent w hw⟩

/-- How far a write of `caller` has pushed the values of the callers in `old` back. -/
inductive Advances (old : C → Prop) (caller : C) (record : RunRecord) (createOnly : Bool)
    (s : DurableStore C) : Prop
  | pending : s.standing caller = .pending (.write record createOnly) →
      Advances old caller record createOnly s
  | applied {before after : List (Written C)} :
      s.standing caller = .applied (.write record createOnly) false →
      s.recent record.id = before ++ ⟨caller, record.persisted⟩ :: after →
      (∀ w ∈ after, ¬ old w.writer) → Advances old caller record createOnly s
  | durable : s.standing caller = .applied (.write record createOnly) true →
      Beyond old record.id s → Advances old caller record createOnly s
  | ended : s.standing caller = .refused (.write record createOnly) ∨ s.standing caller = .closed →
      Advances old caller record createOnly s

theorem Advances.step {caller : C} {record : RunRecord} {createOnly : Bool}
    {e : Option (StoreEvent C)} (hover : ∀ {caller}, old caller → s.standing caller = .closed)
    (ha : Advances old caller record createOnly s) (hstep : s.Step e s') :
    Advances old caller record createOnly s' := by
  cases ha with
  | pending hpending =>
      rcases hstep.of_pending hpending with
        h | h | h | ⟨run, hop, _⟩ | ⟨record', createOnly', hop, rfl⟩
      · exact .pending h
      · exact .ended (Or.inr h)
      · exact .ended (Or.inl h)
      · cases hop
      · cases hop
        exact .applied (DurableStore.standing_set_same ..)
          (DurableStore.recent_put_same s caller record) (fun _ hw => by cases hw)
  | @applied before after happlied hrecent hafter =>
      have hothers : ∀ {other}, s.standing other ≠ .applied (.write record createOnly) false →
          caller ≠ other := by
        rintro other hne rfl
        exact hne happlied
      have hyoung : ∀ {other}, s.standing other ≠ .closed → ¬ old other :=
        fun hne hold => hne (hover hold)
      cases hstep with
      | call h | refuse h _ | look h =>
          have hne := hothers (by rw [h]; simp)
          exact .applied ((DurableStore.standing_set_of_ne s _ hne).trans happlied) hrecent hafter
      | @apply other record' createOnly' h _ =>
          have hne := hothers (by rw [h]; simp)
          have hstanding : ((s.put other record').set other
              (.applied (.write record' createOnly') false)).standing caller
                = .applied (.write record createOnly) false := by
            rw [DurableStore.standing_set_of_ne _ _ hne]
            show (s.standing caller).offer _ _ = _
            rw [happlied]
            rfl
          by_cases hid : record.id = record'.id
          · -- a later write of the same run is of a call that is not over
            have hlater : (s.put other record').recent record.id = before ++
                ⟨caller, record.persisted⟩ :: (after ++ [⟨other, record'.persisted⟩]) := by
              rw [hid, DurableStore.recent_put_same, ← hid, hrecent]
              simp
            refine .applied hstanding hlater ?_
            intro w hw
            rcases List.mem_append.mp hw with hw | hw
            · exact hafter w hw
            · cases List.mem_singleton.mp hw
              exact hyoung (by rw [h]; simp)
          · have hsame : (s.put other record').recent record.id = before ++
                ⟨caller, record.persisted⟩ :: after := by
              rw [DurableStore.recent_put_of_ne s other hid, hrecent]
            exact .applied hstanding hsame hafter
      | settle =>
          refine .durable ?_ ⟨fun hold => DurableStore.Step.closed .settle (hover hold), ?_,
            fun w hw => by cases hw⟩
          · show (s.standing caller).settle = _
            rw [happlied]
            rfl
          · show ∃ w, s.current record.id = some w ∧ ¬ old w.writer
            rw [DurableStore.current, hrecent, List.getLast?_append_cons, List.getLast?_cons]
            cases hlast : after.getLast? with
            | none =>
                have hcaller : ¬ old caller := hyoung (by rw [happlied]; simp)
                exact ⟨_, rfl, hcaller⟩
            | some w => exact ⟨w, rfl, hafter w (List.mem_of_getLast? hlast)⟩
      | @answer other op answer _ =>
          by_cases heq : caller = other
          · exact .ended (Or.inr (heq ▸ DurableStore.standing_set_same ..))
          · exact .applied ((DurableStore.standing_set_of_ne s _ heq).trans happlied) hrecent hafter
      | crash =>
          refine .ended (Or.inr ?_)
          show (s.standing caller).stop = _
          rw [happlied]
          rfl
      | powerLoss hlost =>
          refine .ended (Or.inr ?_)
          rw [hlost.standing, happlied]
          rfl
  | durable hdurable hbeyond =>
      rcases hstep.evolves (by rw [hdurable]; simp) (by rw [hdurable]; simp) with h | h
      · rw [hdurable] at h
        have hbeyond' := hbeyond.step hstep
        generalize hstanding : s'.standing caller = standing at h
        cases h <;> exact .durable hstanding hbeyond'
      · exact .ended (Or.inr h)
  | ended hend =>
      rcases hend with hrefused | hend
      · rcases hstep.evolves (by rw [hrefused]; simp) (by rw [hrefused]; simp) with h | h
        · rw [hrefused] at h
          generalize hstanding : s'.standing caller = standing at h
          cases h
          exact .ended (Or.inl hstanding)
        · exact .ended (Or.inr h)
      · exact .ended (Or.inr (hstep.closed hend))

/-! ## What callers can rely on -/

omit [DecidableEq C] in
/-- A write that is answered as done has been made durable. -/
theorem Advances.beyond {caller : C} {record : RunRecord} {createOnly : Bool}
    (ha : Advances old caller record createOnly s)
    (hanswer : s.standing caller = .applied (.write record createOnly) true) :
    Beyond old record.id s := by
  cases ha with
  | durable _ hbeyond => exact hbeyond
  | pending h | applied h _ _ =>
      rw [hanswer] at h
      cases h
  | ended h => rcases h with h | h <;> rw [hanswer] at h <;> cases h

/-- From the answer to a write on, its run has left the values of the calls behind that were over
when the write was called. -/
theorem beyond_of_acknowledged {caller : C} {record : RunRecord} {createOnly : Bool}
    (hrun : DurableStore.automaton.History DurableStore.empty
      (h₁ ++ .called caller (.write record createOnly) :: h₂ ++
        .answered caller (.write record createOnly) (.ok ()) :: h₃) s) :
    Beyond (Ceased h₁) record.id s := by
  obtain ⟨s₃, s₄, hbefore, hanswer, hthird⟩ := hrun.at_event
  obtain ⟨s₁, s₂, hfirst, hcall, hsecond⟩ := hbefore.at_event
  have hover : ∀ {other}, Ceased h₁ other → s₁.standing other = .closed :=
    fun hfinished => over_of_finished hfirst hfinished
  have hcalled : Advances (Ceased h₁) caller record createOnly s₂ := by
    cases hcall with
    | call hunused => exact .pending (DurableStore.standing_set_same ..)
  have hover₂ : ∀ {other}, Ceased h₁ other → s₂.standing other = .closed :=
    fun hfinished => DurableStore.Step.closed hcall (hover hfinished)
  have hadvanced : (∀ {other}, Ceased h₁ other → s₃.standing other = .closed) ∧
      Advances (Ceased h₁) caller record createOnly s₃ :=
    hsecond.keeps (P := fun s => (∀ {other}, Ceased h₁ other → s.standing other = .closed) ∧
        Advances (Ceased h₁) caller record createOnly s)
      (fun ih hstep => ⟨fun hfinished => DurableStore.Step.closed hstep (ih.1 hfinished),
        ih.2.step ih.1 hstep⟩) ⟨hover₂, hcalled⟩
  have hbeyond : Beyond (Ceased h₁) record.id s₃ := by
    refine hadvanced.2.beyond ?_
    cases hanswer with
    | answer hjustified => exact hjustified
  exact hthird.keeps (fun hb hstep => Beyond.step hb hstep) (hbeyond.step hanswer)

/-- A reader that is called after that sees a value of a call that was not over. -/
theorem found_beyond {reader : C} {value : Option RunRecord} (hb : Beyond old run s)
    (hrun : DurableStore.automaton.History s (.called reader (.get run) :: h) s')
    (hanswer : (s'.standing reader).Justifies (.get run) (.ok value)) :
    ∃ w, s'.standing reader = .found run (some w) ∧ value = some w.record ∧ ¬ old w.writer := by
  obtain ⟨s₁, s₂, hsilent, hcall, hrest⟩ := hrun.at_event (h := [])
  have hb₂ : Beyond old run s₂ :=
    Beyond.step (hsilent.keeps (fun hb hstep => Beyond.step hb hstep) hb) hcall
  have hcalled : s₂.standing reader = .pending (.get run) := by
    cases hcall with
    | call _ => exact DurableStore.standing_set_same ..
  have hread : Beyond old run s' ∧ (s'.standing reader = .pending (.get run) ∨
      (∃ w, s'.standing reader = .found run (some w) ∧ ¬ old w.writer) ∨
      s'.standing reader = .closed ∨ s'.standing reader = .refused (.get run)) := by
    refine hrest.keeps (P := fun s => Beyond old run s ∧ (s.standing reader = .pending (.get run) ∨
      (∃ w, s.standing reader = .found run (some w) ∧ ¬ old w.writer) ∨
      s.standing reader = .closed ∨ s.standing reader = .refused (.get run)))
      ?_ ⟨hb₂, Or.inl hcalled⟩
    rintro t e t' ⟨hbeyond, hpending | ⟨w, hfound, hw⟩ | hover | hrefused⟩ hstep
    · refine ⟨Beyond.step hbeyond hstep, ?_⟩
      rcases DurableStore.Step.of_pending hstep hpending with
        h | h | h | ⟨run', hop, h⟩ | ⟨_, _, hop, _⟩
      · exact Or.inl h
      · exact Or.inr (Or.inr (Or.inl h))
      · exact Or.inr (Or.inr (Or.inr h))
      · cases hop
        obtain ⟨w, hcurrent, hw⟩ := hbeyond.current
        rw [hcurrent] at h
        exact Or.inr (Or.inl ⟨w, h, hw⟩)
      · cases hop
    · refine ⟨Beyond.step hbeyond hstep, ?_⟩
      rcases DurableStore.Step.evolves hstep (by rw [hfound]; simp) (by rw [hfound]; simp)
        with h | h
      · rw [hfound] at h
        generalize hstanding : t'.standing reader = standing at h
        cases h
        exact Or.inr (Or.inl ⟨w, rfl, hw⟩)
      · exact Or.inr (Or.inr (Or.inl h))
    · exact ⟨Beyond.step hbeyond hstep,
        Or.inr (Or.inr (Or.inl (DurableStore.Step.closed hstep hover)))⟩
    · refine ⟨Beyond.step hbeyond hstep, ?_⟩
      rcases DurableStore.Step.evolves hstep (by rw [hrefused]; simp) (by rw [hrefused]; simp)
        with h | h
      · rw [hrefused] at h
        generalize hstanding : t'.standing reader = standing at h
        cases h
        exact Or.inr (Or.inr (Or.inr rfl))
      · exact Or.inr (Or.inr (Or.inl h))
  obtain ⟨v, hfound, rfl⟩ := hanswer
  rcases hread.2 with h | ⟨w, h, hw⟩ | h | h <;> rw [hfound] at h <;> cases h
  exact ⟨w, hfound, rfl, hw⟩

/-- A listing that is called after that has such a value of the run. -/
theorem listed_beyond {reader : C} {records : List RunRecord} (hb : Beyond old run s)
    (hrun : DurableStore.automaton.History s (.called reader .loadAll :: h) s')
    (hanswer : (s'.standing reader).Justifies .loadAll (.ok records)) :
    ∃ there offers w, s'.standing reader = .listing there offers ∧ offers run w ∧
      w.record ∈ records ∧ ¬ old w.writer := by
  obtain ⟨s₁, s₂, hsilent, hcall, hrest⟩ := hrun.at_event (h := [])
  have hb₁ : Beyond old run s₁ := hsilent.keeps (fun hb hstep => Beyond.step hb hstep) hb
  have hlisting : Beyond old run s₂ ∧ ∃ there offers, s₂.standing reader = .listing there offers ∧
      there run ∧ ∀ w, offers run w → ¬ old w.writer := by
    refine ⟨hb₁.step hcall, ?_⟩
    obtain ⟨w, hcurrent, hw⟩ := hb₁.current
    cases hcall with
    | call _ =>
        refine ⟨_, _, DurableStore.standing_set_same .., by simp [hcurrent], ?_⟩
        intro w' hw'
        rw [hcurrent] at hw'
        cases hw'
        exact hw
  have hend : Beyond old run s' ∧ (s'.standing reader = .closed ∨
      ∃ there offers, s'.standing reader = .listing there offers ∧ there run ∧
        ∀ w, offers run w → ¬ old w.writer) := by
    refine hrest.keeps (P := fun s => Beyond old run s ∧ (s.standing reader = .closed ∨
      ∃ there offers, s.standing reader = .listing there offers ∧ there run ∧
        ∀ w, offers run w → ¬ old w.writer)) ?_ ⟨hlisting.1, Or.inr hlisting.2⟩
    rintro t e t' ⟨hbeyond, hover | ⟨there, offers, hstanding, hthere, hoffers⟩⟩ hstep
    · exact ⟨Beyond.step hbeyond hstep, Or.inl (DurableStore.Step.closed hstep hover)⟩
    · refine ⟨Beyond.step hbeyond hstep, ?_⟩
      rcases DurableStore.Step.of_listing hstep hstanding with h | ⟨offers', h, hnew⟩
      · exact Or.inl h
      · refine Or.inr ⟨there, offers', h, hthere, ?_⟩
        intro w hw hold
        rcases hnew run w hw with hw | ⟨op, hpending⟩
        · exact hoffers w hw hold
        · rw [hbeyond.closed hold] at hpending
          cases hpending
  obtain ⟨there, offers, hstanding, hlisted⟩ := hanswer
  rcases hend.2 with h | ⟨there', offers', h, hthere, hoffers⟩ <;> rw [hstanding] at h <;> cases h
  obtain ⟨record, hrecord, rfl⟩ := hlisted.complete run hthere
  obtain ⟨w, hw, rfl⟩ := hlisted.offered record hrecord
  exact ⟨there, offers, w, hstanding, hw, hrecord, hoffers w hw⟩

end Durability

end PackageHarness
