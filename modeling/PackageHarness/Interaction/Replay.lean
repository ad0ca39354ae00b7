/-
# PackageHarness.Interaction.Replay — running a program against scripted surroundings.

A `Script` fixes one answer to each request, or none to stop there. Replaying a program against it
is a computation, and where the semantics admits the script's answers, what the replay arrives at is
reachable. This turns "the program can get there" into an evaluation.
-/
import PackageHarness.Interaction.Program

namespace PackageHarness.Interaction

open Relation

variable {E : Type} {R : E → Type} {W α : Type}

/-- Surroundings that decide how they answer: the answer and the world after it. -/
abbrev Script (E : Type) (R : E → Type) (W : Type) := W → (e : E) → Option (R e × W)

/-- The semantics can give the script's answers, after drifting if need be. -/
def Script.Admitted (script : Script E R W) (S : Semantics E R W) : Prop :=
  ∀ w e r w', script w e = some (r, w') →
    ∃ w₁, ReflTransGen (S.drift e) w w₁ ∧ S.answer w₁ e r w'

theorem Script.Admitted.mono {script : Script E R W} {S T : Semantics E R W}
    (h : script.Admitted S) (hanswer : ∀ w e r w', S.answer w e r w' → T.answer w e r w')
    (hdrift : ∀ e w w', S.drift e w w' → T.drift e w w') : script.Admitted T := by
  intro w e r w' hscript
  obtain ⟨w₁, hdrifts, hr⟩ := h w e r w' hscript
  exact ⟨w₁, hdrifts.lift id fun _ _ => hdrift e _ _, hanswer w₁ e r w' hr⟩

namespace Program

/-- The request that a program waits for. -/
def pending : Program E R α → Option E
  | .pure _ => none
  | .request e _ => some e
  | .loop _ _ _ => none

theorem pending_eq_some {p : Program E R α} {e : E} (h : p.pending = some e) :
    ∃ next, p = .request e next := by
  cases p with
  | pure a => cases h
  | request e' next =>
      cases h
      exact ⟨next, rfl⟩
  | loop body s next => cases h

/-- What a program has ended with. -/
def value : Program E R α → Option α
  | .pure a => some a
  | .request _ _ => none
  | .loop _ _ _ => none

theorem value_eq_some {p : Program E R α} {a : α} (h : p.value = some a) : p = .pure a := by
  cases p with
  | pure b =>
      cases h
      rfl
  | request e next => cases h
  | loop body s next => cases h

/-- At most `fuel` steps against the script; a request that it leaves open stays pending. -/
def replay (script : Script E R W) : (fuel : Nat) → Program E R α × W → Program E R α × W
  | 0, c => c
  | _ + 1, (.pure a, w) => (.pure a, w)
  | fuel + 1, (.request e next, w) =>
      match script w e with
      | none => (.request e next, w)
      | some (r, w') => replay script fuel (next r, w')
  | fuel + 1, (.loop body s next, w) =>
      replay script fuel ((body s).bind (.afterRound body next), w)

variable {S : Semantics E R W} {script : Script E R W}

/-- Drift while a request is pending. -/
theorem Reaches.drifts {e : E} {next : R e → Program E R α} {w w' : W}
    (h : ReflTransGen (S.drift e) w w') :
    Reaches S (.request e next, w) (.request e next, w') := by
  induction h with
  | refl => exact .refl
  | tail _ hdrift ih => exact ih.tail (.drift hdrift)

/-- A replay against admitted answers is a run. -/
theorem reaches_replay (hscript : script.Admitted S) (fuel : Nat) (c : Program E R α × W) :
    Reaches S c (replay script fuel c) := by
  induction fuel generalizing c with
  | zero => exact .refl
  | succ fuel ih =>
      obtain ⟨p, w⟩ := c
      cases p with
      | pure a => exact .refl
      | request e next =>
          cases hanswer : script w e with
          | none =>
              rw [replay, hanswer]
              exact .refl
          | some answer =>
              obtain ⟨r, w'⟩ := answer
              obtain ⟨w₁, hdrifts, hr⟩ := hscript w e r w' hanswer
              rw [replay, hanswer]
              exact (Reaches.drifts hdrifts).trans (Reaches.perform hr (ih _))
      | loop body s next => exact ReflTransGen.head .unroll (ih _)

end Program

end PackageHarness.Interaction
