/-
# PackageHarness.Interaction.Budget — what the requests of a program may come to.

Every request has a weight in an ordered monoid. `Costs weight n p` says that the requests of `p`
come to no more than `n`, whatever they are answered, and that `p` has no endless loop; so it ends
in any surroundings that answer. Nothing in this module mentions a particular program.
-/
import Mathlib.Algebra.Order.Monoid.Canonical.Basic
import PackageHarness.Interaction.Replay
import PackageHarness.Interaction.Transcript

namespace PackageHarness.Interaction

open Relation

section Costs

variable {E : Type} {R : E → Type} {M : Type} [AddCommMonoid M] [PartialOrder M]

inductive Costs (weight : E → M) : {α : Type} → M → Program E R α → Prop
  | pure {α : Type} {n : M} {a : α} : Costs weight n (.pure a)
  | request {α : Type} {m n : M} {e : E} {next : R e → Program E R α} :
      weight e + m ≤ n → (∀ r, Costs weight m (next r)) → Costs weight n (.request e next)

variable {α β : Type} {weight : E → M} {m n : M} {p : Program E R α}

theorem Costs.mono (h : Costs weight m p) (hle : m ≤ n) : Costs weight n p := by
  cases h with
  | pure => exact .pure
  | request hweight hnext => exact .request (hweight.trans hle) hnext

theorem Costs.perform {e : E} (h : weight e ≤ n) :
    Costs weight n (Program.perform e : Program E R (R e)) :=
  .request (m := 0) (by rwa [add_zero]) fun _ => .pure

variable [IsOrderedAddMonoid M] [CanonicallyOrderedAdd M]

theorem Costs.bind {f : α → Program E R β} (hp : Costs weight m p)
    (hf : ∀ a, Costs weight n (f a)) : Costs weight (m + n) (p.bind f) := by
  induction hp with
  | pure => exact (hf _).mono le_add_self
  | @request k m e next hweight _ ih =>
      refine .request (m := k + n) ?_ fun r => ih r
      rw [← add_assoc]
      exact add_le_add_left hweight n

/-- The budget of a composite may be given as any bound of the sum. -/
theorem Costs.seq {k : M} {f : α → Program E R β} (hp : Costs weight m p)
    (hf : ∀ a, Costs weight n (f a)) (hle : m + n ≤ k) : Costs weight k (p.bind f) :=
  (hp.bind hf).mono hle

/-- What the requests of a conversation come to. -/
def Transcript.spent (weight : E → M) (t : Transcript E R) : M :=
  (t.map fun exchange => weight exchange.request).sum

omit [CanonicallyOrderedAdd M] in
/-- At every point of a run, what was spent and what is still needed are within the budget. -/
theorem Costs.reaches {t : Transcript E R} {c : Program E R α × Transcript E R}
    (h : Costs weight n p) (hruns : Reaches recording (p, t) c) :
    ∃ rest, Costs weight rest c.1 ∧ c.2.spent weight + rest ≤ t.spent weight + n := by
  induction hruns with
  | refl => exact ⟨n, h, le_refl _⟩
  | tail _ hstep ih =>
      obtain ⟨rest, hcosts, hspent⟩ := ih
      cases hstep with
      | @answer e next w r w' hanswer =>
          cases hanswer
          cases hcosts with
          | @request m _ _ _ hweight hnext =>
              refine ⟨m, hnext r, le_trans ?_ hspent⟩
              have hsum : Transcript.spent weight (⟨e, r⟩ :: w) = weight e + w.spent weight := by
                simp [Transcript.spent]
              calc Transcript.spent weight (⟨e, r⟩ :: w) + m
                  = w.spent weight + (weight e + m) := by
                    rw [hsum, add_comm (weight e), add_assoc]
                _ ≤ w.spent weight + rest := add_le_add_right hweight _
      | drift hdrift => exact hdrift.elim
      | unroll => cases hcosts

/-- A conversation from the beginning keeps to the budget. -/
theorem Costs.spent_le {c : Program E R α × Transcript E R} (h : Costs weight n p)
    (hruns : Reaches recording (p, []) c) : c.2.spent weight ≤ n := by
  obtain ⟨rest, -, hspent⟩ := h.reaches hruns
  have hstart : Transcript.spent weight ([] : Transcript E R) = 0 := rfl
  rw [hstart, zero_add] at hspent
  exact le_self_add.trans hspent

end Costs

/-- A coarser weight of the requests gives a coarser budget. -/
theorem Costs.map {E : Type} {R : E → Type} {M N : Type} [AddCommMonoid M] [PartialOrder M]
    [AddCommMonoid N] [PartialOrder N] {weight : E → M} {n : M} {α : Type} {p : Program E R α}
    (f : M →+ N) (hf : Monotone f) (h : Costs weight n p) :
    Costs (fun e => f (weight e)) (f n) p := by
  induction h with
  | pure => exact .pure
  | request hweight _ ih =>
      refine .request ?_ ih
      rw [← map_add]
      exact hf hweight

/-- Surroundings that answer every request bring a program without endless loops to its end. -/
theorem Costs.ends {E : Type} {R : E → Type} {W α : Type} {n : Nat} {p : Program E R α}
    (h : Costs (fun _ => 1) n p) {script : Script E R W}
    (hanswers : ∀ w e, (script w e).isSome) (w : W) :
    ∃ a w', Program.replay script n (p, w) = (.pure a, w') := by
  induction n generalizing p w with
  | zero =>
      cases h with
      | pure => exact ⟨_, _, rfl⟩
      | request hweight _ => omega
  | succ n ih =>
      cases h with
      | pure => exact ⟨_, _, rfl⟩
      | @request m _ e next hweight hnext =>
          obtain ⟨⟨r, w'⟩, hanswer⟩ := Option.isSome_iff_exists.mp (hanswers w e)
          obtain ⟨a, w'', hreplay⟩ := ih ((hnext r).mono (by omega)) w'
          refine ⟨a, w'', ?_⟩
          rw [Program.replay, hanswer]
          exact hreplay

namespace Routine

variable {E : Type} {R : E → Type} {M : Type} [AddCommMonoid M] [PartialOrder M]
  {σ ε ε' α β : Type} {weight : E → M} {m n : M}

/-- The same of a routine, from any local state. -/
def Costs (weight : E → M) (n : M) (routine : Routine E R σ ε α) : Prop :=
  ∀ s, Interaction.Costs weight n (routine s)

theorem Costs.mono {routine : Routine E R σ ε α} (h : Costs weight m routine) (hle : m ≤ n) :
    Costs weight n routine :=
  fun s => (h s).mono hle

theorem Costs.pure {a : α} : Costs weight n (Pure.pure a : Routine E R σ ε α) := fun _ => .pure

theorem Costs.throw {e : ε} : Costs weight n (Routine.throw e : Routine E R σ ε α) := fun _ => .pure

theorem Costs.read : Costs weight n (Routine.read : Routine E R σ ε σ) := fun _ => .pure

theorem Costs.update {f : σ → σ} : Costs weight n (Routine.update f : Routine E R σ ε Unit) :=
  fun _ => .pure

theorem Costs.ofExcept {r : Except ε α} :
    Costs weight n (Routine.ofExcept r : Routine E R σ ε α) := by
  cases r with
  | ok a => exact Costs.pure
  | error e => exact Costs.throw

variable [IsOrderedAddMonoid M] [CanonicallyOrderedAdd M]

theorem Costs.run {p : Program E R α} (h : Interaction.Costs weight n p) :
    Costs weight n (Routine.run p : Routine E R σ ε α) := by
  intro s
  have hbind := h.bind (n := 0) fun a => (.pure : Interaction.Costs weight 0
    (.pure (.ok a, s) : Program E R (Except ε α × σ)))
  rwa [add_zero] at hbind

theorem Costs.bind {first : Routine E R σ ε α} {f : α → Routine E R σ ε β}
    (hfirst : Costs weight m first) (hf : ∀ a, Costs weight n (f a)) :
    Costs weight (m + n) (first >>= f) := by
  intro s
  refine (hfirst s).bind ?_
  rintro ⟨r, s'⟩
  cases r with
  | ok a => exact hf a s'
  | error e => exact .pure

theorem Costs.mapError {routine : Routine E R σ ε α} {f : ε → ε'} (h : Costs weight n routine) :
    Costs weight n (routine.mapError f) := by
  intro s
  rw [← add_zero n]
  refine (h s).bind ?_
  rintro ⟨r, s'⟩
  cases r with
  | ok a => exact .pure
  | error e => exact .pure

theorem Costs.attempt {δ : Type} {routine : Routine E R σ ε α} (h : Costs weight n routine) :
    Costs weight n (routine.attempt : Routine E R σ δ (Except ε α)) := by
  intro s
  rw [← add_zero n]
  exact (h s).bind fun _ => .pure

end Routine

end PackageHarness.Interaction
