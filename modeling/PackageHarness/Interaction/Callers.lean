/-
# PackageHarness.Interaction.Callers — operations that many callers use at once.

An implementation gives a program for each operation. `Shared` is the state of such an
implementation in use: every caller makes one call, the calls run interleaved over one world, and an interruption
ends all that are running and may change the world. What can be seen of it from outside are the
calls, their answers and the interruptions: its history. `Automaton` is the notion of a system with
such histories, and `Automaton.History.simulated` carries histories to a simpler system.

Nothing in this module mentions a particular program.
-/
import Mathlib.Logic.Function.Basic
import PackageHarness.Interaction.Program

namespace PackageHarness.Interaction

universe u v

/-! ## Histories -/

/-- A transition system, some of whose steps can be seen. -/
structure Automaton (σ : Type u) (ε : Type) where
  step : σ → Option ε → σ → Prop

namespace Automaton

variable {σ : Type u} {τ : Type v} {ε : Type}

/-- What can be seen of a run, oldest first. -/
inductive History (M : Automaton σ ε) (s : σ) : List ε → σ → Prop
  | start : History M s [] s
  | silent {h : List ε} {t t' : σ} : History M s h t → M.step t none t' → History M s h t'
  | event {h : List ε} {t t' : σ} {e : ε} :
      History M s h t → M.step t (some e) t' → History M s (h ++ [e]) t'

namespace History

variable {M : Automaton σ ε} {N : Automaton τ ε} {s s' s'' : σ} {h h' : List ε}

theorem trans (hfirst : M.History s h s') (hsecond : M.History s' h' s'') :
    M.History s (h ++ h') s'' := by
  induction hsecond with
  | start => simpa using hfirst
  | silent _ hstep ih => exact ih.silent hstep
  | event _ hstep ih =>
      rw [← List.append_assoc]
      exact ih.event hstep

theorem of_step {e : Option ε} (hstep : M.step s e s') : M.History s e.toList s' := by
  cases e with
  | none => exact start.silent hstep
  | some e => exact start.event hstep

/-- A run passes through a state at each point of its history. -/
theorem split (hrun : M.History s (h ++ h') s'') :
    ∃ s', M.History s h s' ∧ M.History s' h' s'' := by
  generalize hall : h ++ h' = all at hrun
  induction hrun generalizing h' with
  | start =>
      obtain ⟨rfl, rfl⟩ := List.append_eq_nil_iff.mp hall
      exact ⟨s, .start, .start⟩
  | silent _ hstep ih =>
      obtain ⟨t, hfirst, hsecond⟩ := ih hall
      exact ⟨t, hfirst, hsecond.silent hstep⟩
  | @event before t t' e hbefore hstep ih =>
      rcases List.eq_nil_or_concat h' with rfl | ⟨front, last, rfl⟩
      · -- the whole history belongs to the first part
        rw [List.append_nil] at hall
        subst hall
        exact ⟨t', hbefore.event hstep, .start⟩
      · rw [List.concat_eq_append, ← List.append_assoc] at hall
        obtain ⟨hfront, hlast⟩ := List.append_inj' hall rfl
        obtain ⟨t₁, hfirst, hsecond⟩ := ih hfront
        cases hlast
        rw [List.concat_eq_append]
        exact ⟨t₁, hfirst, hsecond.event hstep⟩

/-- What every step keeps holds to the end of a run. -/
theorem keeps {P : σ → Prop} (hstep : ∀ {t e t'}, P t → M.step t e t' → P t')
    (hrun : M.History s h s') (hs : P s) : P s' := by
  induction hrun with
  | start => exact hs
  | silent _ hlast ih => exact hstep ih hlast
  | event _ hlast ih => exact hstep ih hlast

/-- What every unseen step keeps holds to the end of a run that shows nothing. -/
theorem keeps_silently {P : σ → Prop} (hstep : ∀ {t t'}, P t → M.step t none t' → P t')
    (hrun : M.History s [] s') (hs : P s) : P s' := by
  generalize hh : ([] : List ε) = h at hrun
  induction hrun with
  | start => exact hs
  | silent _ hlast ih => exact hstep (ih hh) hlast
  | event _ _ _ => simp at hh

/-- What every step keeps of a history and the state it ends in. -/
theorem invariant {P : List ε → σ → Prop}
    (hstep : ∀ {h t e t'}, P h t → M.step t e t' → P (h ++ e.toList) t') (hs : P [] s)
    (hrun : M.History s h s') : P h s' := by
  induction hrun with
  | start => exact hs
  | silent _ hlast ih => simpa using hstep ih hlast
  | event _ hlast ih => exact hstep ih hlast

/-- The step at which something was seen. -/
theorem at_event {e : ε} (hrun : M.History s (h ++ e :: h') s'') :
    ∃ t t', M.History s h t ∧ M.step t (some e) t' ∧ M.History t' h' s'' := by
  obtain ⟨t, hfirst, hrest⟩ := hrun.split
  obtain ⟨t₁, hone, hlast⟩ := split (h := [e]) hrest
  -- the part that shows only `e`: silent steps on both sides of it
  suffices key : ∀ {shown : List ε} {a b : σ}, M.History a shown b → shown = [e] →
      ∃ c c', M.History a [] c ∧ M.step c (some e) c' ∧ M.History c' [] b by
    obtain ⟨c, c', hbefore, hstep, hafter⟩ := key hone rfl
    exact ⟨c, c', by simpa using hfirst.trans hbefore, hstep, by simpa using hafter.trans hlast⟩
  intro shown a b hab hshown
  induction hab with
  | start => cases hshown
  | silent _ hstep ih =>
      obtain ⟨c, c', hbefore, hat, hafter⟩ := ih hshown
      exact ⟨c, c', hbefore, hat, hafter.silent hstep⟩
  | @event before t t' last hbefore hstep _ =>
      obtain ⟨hnil, hlast⟩ := List.append_inj' (show before ++ [last] = [] ++ [e] from hshown) rfl
      cases hnil
      cases hlast
      exact ⟨t, t', hbefore, hstep, .start⟩

/-- If every step of `M` can be followed in `N`, the histories of `M` are histories of `N`. -/
theorem simulated {R : σ → τ → Prop}
    (hstep : ∀ {t e t' u}, R t u → M.step t e t' → ∃ u', N.History u e.toList u' ∧ R t' u')
    (hrun : M.History s h s') {u : τ} (hs : R s u) : ∃ u', N.History u h u' ∧ R s' u' := by
  induction hrun with
  | start => exact ⟨u, .start, hs⟩
  | silent _ hlast ih =>
      obtain ⟨u', hfollowed, hR⟩ := ih
      obtain ⟨u'', hmore, hR'⟩ := hstep hR hlast
      exact ⟨u'', by simpa using hfollowed.trans hmore, hR'⟩
  | event _ hlast ih =>
      obtain ⟨u', hfollowed, hR⟩ := ih
      obtain ⟨u'', hmore, hR'⟩ := hstep hR hlast
      exact ⟨u'', hfollowed.trans hmore, hR'⟩

end History

end Automaton

/-! ## Calls -/

/-- What can be seen of the use of an interface. -/
inductive Event (C O : Type) (A : O → Type) (K : Type)
  | called (caller : C) (op : O)
  | answered (caller : C) (op : O) (answer : A op)
  | interrupted (kind : K)

/-- The one call that a caller makes. -/
inductive CallState {O : Type} (A : O → Type) (E : Type) (R : E → Type)
  | unused
  | running (op : O) (rest : Program E R (A op))
  | closed

/-- After an interruption no call is running. -/
def CallState.stop {O : Type} {A : O → Type} {E : Type} {R : E → Type} :
    CallState A E R → CallState A E R
  | unused => unused
  | _ => closed

/-- An implementation in use: the calls of all callers, and the world they share. -/
structure Shared (C : Type) {O : Type} (A : O → Type) (E : Type) (R : E → Type) (W : Type) where
  tasks : C → CallState A E R
  world : W

namespace Shared

variable {C O E W K : Type} {A : O → Type} {R : E → Type}

def start (world : W) : Shared C A E R W := ⟨fun _ => .unused, world⟩

variable [DecidableEq C]

def set (s : Shared C A E R W) (caller : C) (task : CallState A E R) : Shared C A E R W :=
  { s with tasks := Function.update s.tasks caller task }

@[simp] theorem tasks_set_same (s : Shared C A E R W) (caller : C) (task : CallState A E R) :
    (s.set caller task).tasks caller = task :=
  Function.update_self ..

theorem tasks_set_of_ne (s : Shared C A E R W) {caller other : C} (task : CallState A E R)
    (h : other ≠ caller) : (s.set caller task).tasks other = s.tasks other :=
  Function.update_of_ne h ..

/-- The steps of an implementation in use. `admits` says which operations callers ask for. -/
inductive Step (implementation : (op : O) → Program E R (A op)) (S : Semantics E R W)
    (admits : O → Prop) (interrupts : K → W → W → Prop) :
    Shared C A E R W → Option (Event C O A K) → Shared C A E R W → Prop
  | call {s : Shared C A E R W} {caller : C} {op : O} :
      s.tasks caller = .unused → admits op →
      Step implementation S admits interrupts s (some (.called caller op))
        (s.set caller (.running op (implementation op)))
  | work {s : Shared C A E R W} {caller : C} {op : O} {rest rest' : Program E R (A op)}
      {world : W} : s.tasks caller = .running op rest →
      Interaction.Step S (rest, s.world) (rest', world) →
      Step implementation S admits interrupts s none
        ({ s with world := world }.set caller (.running op rest'))
  | answer {s : Shared C A E R W} {caller : C} {op : O} {answer : A op} :
      s.tasks caller = .running op (.pure answer) →
      Step implementation S admits interrupts s (some (.answered caller op answer))
        (s.set caller .closed)
  | interrupt {s : Shared C A E R W} {kind : K} {world : W} : interrupts kind s.world world →
      Step implementation S admits interrupts s (some (.interrupted kind))
        ⟨fun caller => (s.tasks caller).stop, world⟩

def automaton (implementation : (op : O) → Program E R (A op)) (S : Semantics E R W)
    (admits : O → Prop) (interrupts : K → W → W → Prop) :
    Automaton (Shared C A E R W) (Event C O A K) :=
  ⟨Step implementation S admits interrupts⟩

variable {implementation : (op : O) → Program E R (A op)} {S : Semantics E R W} {admits : O → Prop}
  {interrupts : K → W → W → Prop} {s : Shared C A E R W} {caller : C} {op : O} {answer : A op}
  {world : W}

/-- A call that is left alone does what its program does. -/
theorem works {p q : Program E R (A op)} (htask : s.tasks caller = .running op p)
    (hruns : Reaches S (p, s.world) (q, world)) :
    (automaton implementation S admits interrupts).History s []
      ({ s with world := world }.set caller (.running op q)) := by
  have key : ∀ c : Program E R (A op) × W, Reaches S (p, s.world) c →
      (automaton implementation S admits interrupts).History s []
        ({ s with world := c.2 }.set caller (.running op c.1)) := by
    intro c hc
    induction hc with
    | refl =>
        have hsame : ({ s with world := s.world }.set caller (.running op p)) = s := by
          rw [set, ← htask, Function.update_eq_self]
        rw [hsame]
        exact .start
    | @tail middle last _ hlast ih =>
        have hset : ({ ({ s with world := middle.2 }.set caller (.running op middle.1)) with
            world := last.2 }.set caller (.running op last.1))
            = ({ s with world := last.2 }.set caller (.running op last.1)) := by
          simp [set]
        have hstep : Step implementation S admits interrupts
            ({ s with world := middle.2 }.set caller (.running op middle.1)) none
            ({ s with world := last.2 }.set caller (.running op last.1)) := by
          rw [← hset]
          exact .work (tasks_set_same ..) hlast
        exact ih.silent hstep
  exact key (q, world) hruns

/-- A call that is left alone from its start is answered as its program ends. -/
theorem serves (hunused : s.tasks caller = .unused) (hadmits : admits op)
    (hruns : Reaches S (implementation op, s.world) (.pure answer, world)) :
    (automaton implementation S admits interrupts).History s
      [.called caller op, .answered caller op answer]
      ({ s with world := world }.set caller .closed) := by
  have hcalled : (automaton implementation S admits interrupts).History s [.called caller op]
      (s.set caller (.running op (implementation op))) :=
    .of_step (e := some _) (.call hunused hadmits)
  have hworked : (automaton implementation S admits interrupts).History
      (s.set caller (.running op (implementation op))) []
      ({ s with world := world }.set caller (.running op (.pure answer))) := by
    have hset : ({ (s.set caller (.running op (implementation op))) with world := world }.set caller
          (.running op (.pure answer)))
        = ({ s with world := world }.set caller (.running op (.pure answer))) := by simp [set]
    rw [← hset]
    exact works (tasks_set_same ..) hruns
  have hset :
      (({ s with world := world }.set caller (.running op (.pure answer))).set caller .closed)
      = ({ s with world := world }.set caller .closed) := by simp [set]
  have hanswered : Step implementation S admits interrupts
      ({ s with world := world }.set caller (.running op (.pure answer)))
      (some (.answered caller op answer)) ({ s with world := world }.set caller .closed) := by
    rw [← hset]
    exact .answer (tasks_set_same ..)
  exact (hcalled.trans hworked).event hanswered

end Shared

end PackageHarness.Interaction
