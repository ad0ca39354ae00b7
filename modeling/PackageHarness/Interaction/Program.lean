/-
# PackageHarness.Interaction.Program — programs that talk to their surroundings, as data.

A `Program E R α` issues requests from a signature `E`, each answered by a value of `R e`, and ends
with a value of `α`. Endless loops are a constructor, so a service that never returns is an ordinary
finite term. A `Semantics` says which answers the surroundings may give and how the world may drift
while a request is pending; `Reaches` is the reachability relation of the resulting transition
system, with every intermediate configuration visible. That visibility is what crash reasoning
needs: a crash can be taken at each of them.

Nothing in this module mentions a particular program.
-/
import Mathlib.Logic.Relation

namespace PackageHarness.Interaction

open Relation

/-! ## Programs -/

/-- A program over the request signature `E` with answers `R`. -/
inductive Program (E : Type) (R : E → Type) : Type → Type 1
  | pure {α : Type} (a : α) : Program E R α
  | request {α : Type} (e : E) (next : R e → Program E R α) : Program E R α
  | loop {σ β α : Type} (body : σ → Program E R (σ ⊕ β)) (s : σ) (next : β → Program E R α) :
      Program E R α

namespace Program

variable {E : Type} {R : E → Type} {α β γ : Type}

/-- Sequential composition. -/
def bind : Program E R α → (α → Program E R β) → Program E R β
  | .pure a, f => f a
  | .request e next, f => .request e fun r => (next r).bind f
  | .loop body s next, f => .loop body s fun b => (next b).bind f

instance : Monad (Program E R) where
  pure := Program.pure
  bind := Program.bind

/-- A single request whose answer is the result. -/
def perform (e : E) : Program E R (R e) := .request e .pure

/-- Repeats `body` until it answers `inr`. -/
def iterate (body : α → Program E R (α ⊕ β)) (s : α) : Program E R β := .loop body s .pure

theorem bind_assoc (p : Program E R α) (f : α → Program E R β) (g : β → Program E R γ) :
    (p.bind f).bind g = p.bind fun a => (f a).bind g := by
  induction p with
  | pure a => rfl
  | request e next ih => simp only [bind, ih]
  | loop body s next _ ih => simp only [bind, ih]

/-! ## Changing the signature -/

section Translate

variable {E' : Type} {R' : E' → Type}

/-- Carries a program into another signature: `f` renames requests, `g` reads the answers back. -/
def translate (f : E → E') (g : ∀ e, R' (f e) → R e) :
    {α : Type} → Program E R α → Program E' R' α
  | _, .pure a => .pure a
  | _, .request e next => .request (f e) fun r => (next (g e r)).translate f g
  | _, .loop body s next =>
      .loop (fun t => (body t).translate f g) s fun b => (next b).translate f g

theorem translate_bind (f : E → E') (g : ∀ e, R' (f e) → R e) (p : Program E R α)
    (k : α → Program E R β) :
    (p.bind k).translate f g = (p.translate f g).bind fun a => (k a).translate f g := by
  induction p with
  | pure a => rfl
  | request e next ih => simp only [bind, translate, ih]
  | loop body s next _ ih => simp only [bind, translate, ih]

end Translate

end Program

/-! ## Semantics -/

/-- How the surroundings behave: the answers they may give to a request in a world, and the moves
the world may make on its own while a request is pending. -/
structure Semantics (E : Type) (R : E → Type) (W : Type) where
  answer : W → (e : E) → R e → W → Prop
  drift : E → W → W → Prop

section Steps

variable {E : Type} {R : E → Type} {W α β : Type}

/-- What is left of one round of a loop: another round, or the code after it. -/
def Program.afterRound {σ : Type} (body : σ → Program E R (σ ⊕ β)) (next : β → Program E R α) :
    σ ⊕ β → Program E R α
  | .inl s => .loop body s next
  | .inr b => next b

/-- One step of a program together with its world. -/
inductive Step (S : Semantics E R W) : Program E R α × W → Program E R α × W → Prop
  | answer {e : E} {next : R e → Program E R α} {w : W} {r : R e} {w' : W} :
      S.answer w e r w' → Step S (.request e next, w) (next r, w')
  | drift {e : E} {next : R e → Program E R α} {w w' : W} :
      S.drift e w w' → Step S (.request e next, w) (.request e next, w')
  | unroll {σ β : Type} {body : σ → Program E R (σ ⊕ β)} {s : σ} {next : β → Program E R α}
      {w : W} :
      Step S (.loop body s next, w) ((body s).bind (.afterRound body next), w)

/-- Any number of steps. -/
def Reaches (S : Semantics E R W) : Program E R α × W → Program E R α × W → Prop :=
  ReflTransGen (Step S)

variable {S : Semantics E R W}

theorem not_step_pure {a : α} {w : W} {c : Program E R α × W} : ¬ Step S (.pure a, w) c := by
  intro h
  cases h

/-- Surroundings that can do more admit more steps. -/
theorem Step.mono {T : Semantics E R W} {c c' : Program E R α × W} (h : Step S c c')
    (hanswer : ∀ w e r w', S.answer w e r w' → T.answer w e r w')
    (hdrift : ∀ e w w', S.drift e w w' → T.drift e w w') : Step T c c' := by
  cases h with
  | answer hr => exact .answer (hanswer _ _ _ _ hr)
  | drift hd => exact .drift (hdrift _ _ _ hd)
  | unroll => exact .unroll

/-- A composite program steps inside its first part until that part has ended. -/
theorem Step.of_bind {p : Program E R α} {f : α → Program E R β} {w w' : W} {q : Program E R β}
    (h : Step S (p.bind f, w) (q, w')) :
    (∃ p', q = p'.bind f ∧ Step S (p, w) (p', w')) ∨
      ∃ a, p = .pure a ∧ Step S (f a, w) (q, w') := by
  cases p with
  | pure a => exact Or.inr ⟨a, rfl, h⟩
  | request e next =>
      left
      cases h with
      | answer hr => exact ⟨_, rfl, .answer hr⟩
      | drift hd => exact ⟨.request e next, rfl, .drift hd⟩
  | loop body s next =>
      left
      cases h with
      | unroll =>
          -- unrolling a composite loop unrolls the loop of its first part
          refine ⟨(body s).bind (.afterRound body next), ?_, .unroll⟩
          rw [Program.bind_assoc]
          congr 1
          funext r
          cases r <;> rfl

/-- What has ended goes nowhere. -/
theorem Reaches.of_pure {a : α} {w : W} {c : Program E R α × W} (h : Reaches S (.pure a, w) c) :
    c = (.pure a, w) := by
  rcases ReflTransGen.cases_head h with heq | ⟨c', hstep, _⟩
  · exact heq.symm
  · exact absurd hstep not_step_pure

/-- Reachability from a composite program: still inside the first part, or already behind it. -/
theorem Reaches.of_bind {p : Program E R α} {f : α → Program E R β} {w w' : W} {q : Program E R β}
    (h : Reaches S (p.bind f, w) (q, w')) :
    (∃ p', q = p'.bind f ∧ Reaches S (p, w) (p', w')) ∨
      ∃ a w₁, Reaches S (p, w) (.pure a, w₁) ∧ Reaches S (f a, w₁) (q, w') := by
  -- by induction on the run: once the first part has ended, every later step is of `f a`
  suffices key : ∀ c, Reaches S (p.bind f, w) c →
      (∃ p', c.1 = p'.bind f ∧ Reaches S (p, w) (p', c.2)) ∨
        ∃ a w₁, Reaches S (p, w) (.pure a, w₁) ∧ Reaches S (f a, w₁) c by
    exact key _ h
  intro c hc
  induction hc with
  | refl => exact Or.inl ⟨p, rfl, .refl⟩
  | @tail b c _ hstep ih =>
      obtain ⟨q₁, w₁⟩ := b
      obtain ⟨q₂, w₂⟩ := c
      rcases ih with ⟨p', hq, hp⟩ | ⟨a, w₀, hp, hf⟩
      · simp only at hq
        subst hq
        rcases hstep.of_bind with ⟨p'', hq', hs⟩ | ⟨a, rfl, hs⟩
        · exact Or.inl ⟨p'', hq', hp.tail hs⟩
        · exact Or.inr ⟨a, w₁, hp, .single hs⟩
      · exact Or.inr ⟨a, w₀, hp, hf.tail hstep⟩

theorem Reaches.perform {e : E} {next : R e → Program E R α} {w w' : W} {r : R e}
    {c : Program E R α × W} (h : S.answer w e r w') (hc : Reaches S (next r, w') c) :
    Reaches S (.request e next, w) c :=
  ReflTransGen.head (.answer h) hc

/-! ## Projection onto a smaller world -/

/-- When every move of `S` shows as a move of `T` on the part of the world that `view` keeps,
reachability projects. -/
theorem Reaches.project {V : Type} {T : Semantics E R V} (view : W → V)
    (hanswer : ∀ w e r w', S.answer w e r w' → T.answer (view w) e r (view w'))
    (hdrift : ∀ e w w', S.drift e w w' → T.drift e (view w) (view w') ∨ view w' = view w)
    {c c' : Program E R α × W} (h : Reaches S c c') :
    Reaches T (c.1, view c.2) (c'.1, view c'.2) := by
  induction h with
  | refl => exact .refl
  | @tail b c _ hstep ih =>
      cases hstep with
      | answer hr => exact ih.tail (.answer (hanswer _ _ _ _ hr))
      | drift hd =>
          rcases hdrift _ _ _ hd with hd' | hd'
          · exact ih.tail (.drift hd')
          · simpa only [hd'] using ih
      | unroll => exact ih.tail .unroll

end Steps

end PackageHarness.Interaction
