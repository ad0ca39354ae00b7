/-
# PackageHarness.Interaction.Scripted — total correctness in surroundings that a script decides.

A `Script` that is read as the whole semantics leaves nothing open: each request has at most one
answer and the world never drifts. A program then has at most one end, so that "it ends, and in `Q`"
is at once a statement about the one run and about every run. `Returns` is that statement; its rules
follow the text of the program.
-/
import PackageHarness.Interaction.Replay

namespace PackageHarness.Interaction

open Relation

variable {E : Type} {R : E → Type} {W α β : Type}

/-- Surroundings that do what the script says, and nothing else. -/
def Script.semantics (script : Script E R W) : Semantics E R W where
  answer := fun w e r after => script w e = some (r, after)
  drift := fun _ _ _ => False

/-- The program ends, and it ends in `Q`. -/
def Returns (script : Script E R W) (Q : α → W → Prop) (p : Program E R α) (w : W) : Prop :=
  ∃ a after, Reaches script.semantics (p, w) (.pure a, after) ∧ Q a after

variable {script : Script E R W} {Q Q' : α → W → Prop} {p : Program E R α} {w w' : W}

/-! ## One run -/

theorem Step.functional : Relator.RightUnique (Step (α := α) script.semantics) := by
  intro c c₁ c₂ h₁ h₂
  cases h₁ with
  | answer ha =>
      cases h₂ with
      | answer hb =>
          have hsame := Option.some.inj ((show script _ _ = _ from ha).symm.trans hb)
          cases hsame
          rfl
      | drift hd => exact hd.elim
  | drift hd => exact hd.elim
  | unroll =>
      cases h₂ with
      | unroll => rfl

/-- Whatever is reached lies on the way to the end. -/
theorem Reaches.ends {c c' : Program E R α × W} {a : α} (h : Reaches script.semantics c c')
    (hend : Reaches script.semantics c (.pure a, w)) :
    Reaches script.semantics c' (.pure a, w) := by
  rcases ReflTransGen.total_of_right_unique Step.functional h hend with hforth | hback
  · exact hforth
  · rw [Reaches.of_pure hback]
    exact .refl

/-- What holds at the end of the one run holds at the end of every run. -/
theorem Returns.ends (h : Returns script Q p w) {a : α}
    (hr : Reaches script.semantics (p, w) (.pure a, w')) : Q a w' := by
  obtain ⟨b, w₂, hb, hQ⟩ := h
  have hsame := Reaches.of_pure (hr.ends hb)
  cases hsame
  exact hQ

/-- The rest of the run ends like the run. -/
theorem Returns.reaches (h : Returns script Q p w) {p' : Program E R α}
    (hr : Reaches script.semantics (p, w) (p', w')) : Returns script Q p' w' := by
  obtain ⟨a, after, hend, hQ⟩ := h
  exact ⟨a, after, hr.ends hend, hQ⟩

/-! ## The rules -/

theorem Returns.pure {a : α} (h : Q a w) : Returns script Q (.pure a : Program E R α) w :=
  ⟨a, w, .refl, h⟩

theorem Returns.request {e : E} {next : R e → Program E R α} {r : R e}
    (hanswer : script w e = some (r, w')) (h : Returns script Q (next r) w') :
    Returns script Q (.request e next) w := by
  obtain ⟨a, after, hr, hQ⟩ := h
  exact ⟨a, after, Reaches.perform hanswer hr, hQ⟩

/-- The rule in the form in which a program asks and goes on. -/
theorem Returns.perform {e : E} {next : R e → Program E R α} {r : R e}
    (hanswer : script w e = some (r, w')) (h : Returns script Q (next r) w') :
    Returns script Q (Program.perform e >>= next) w :=
  Returns.request hanswer h

theorem Returns.mono (h : Returns script Q p w) (hQ : ∀ a after, Q a after → Q' a after) :
    Returns script Q' p w := by
  obtain ⟨a, after, hr, ha⟩ := h
  exact ⟨a, after, hr, hQ a after ha⟩

/-- A step of the first part is a step of the composite. -/
theorem Step.bind {S : Semantics E R W} {f : α → Program E R β} {p' : Program E R α}
    (h : Step S (p, w) (p', w')) : Step S (p.bind f, w) (p'.bind f, w') := by
  cases h with
  | answer ha => exact .answer ha
  | drift hd => exact .drift hd
  | @unroll σ γ body s next w =>
      have hunrolled : ((body s).bind (Program.afterRound body next)).bind f =
          (body s).bind (Program.afterRound body fun b => (next b).bind f) := by
        rw [Program.bind_assoc]
        congr 1
        funext r
        cases r <;> rfl
      rw [hunrolled]
      exact .unroll

theorem Reaches.bind {S : Semantics E R W} {f : α → Program E R β} {p' : Program E R α}
    (h : Reaches S (p, w) (p', w')) : Reaches S (p.bind f, w) (p'.bind f, w') := by
  unfold Reaches at h
  exact h.lift (fun c : Program E R α × W => (c.1.bind f, c.2)) fun _ _ hstep => hstep.bind

theorem Returns.bind {f : α → Program E R β} {K : β → W → Prop} (hp : Returns script Q p w)
    (hf : ∀ a after, Q a after → Returns script K (f a) after) :
    Returns script K (p.bind f) w := by
  obtain ⟨a, w₁, hr, ha⟩ := hp
  obtain ⟨b, w₂, hr', hb⟩ := hf a w₁ ha
  exact ⟨b, w₂, hr.bind.trans hr', hb⟩

/-- The assertion at the end of a round that is not the last: the loop goes on closer to its end. -/
def roundShrinks {σ : Type} (I : σ → W → Prop) (size : σ → W → Nat) (bound : Nat)
    (K : β → W → Prop) : σ ⊕ β → W → Prop
  | .inl s => fun w => I s w ∧ size s w < bound
  | .inr b => K b

/-- A loop ends if every round that does not leave it comes closer to its end. -/
theorem Returns.loop {σ : Type} {body : σ → Program E R (σ ⊕ β)} {next : β → Program E R α}
    (I : σ → W → Prop) (size : σ → W → Nat)
    (hbody : ∀ s w, I s w → Returns script
      (roundShrinks I size (size s w) fun b => Returns script Q (next b)) (body s) w)
    {s : σ} (hI : I s w) : Returns script Q (.loop body s next) w := by
  -- by strong induction on the size of the configuration at the head of the loop
  induction hsize : size s w using Nat.strongRecOn generalizing s w with
  | ind n ih =>
      obtain ⟨r, w₁, hround, hr⟩ := hbody s w hI
      have hunrolled : Reaches script.semantics (.loop body s next, w)
          (Program.afterRound body next r, w₁) := ReflTransGen.head .unroll hround.bind
      suffices hrest : Returns script Q (Program.afterRound body next r) w₁ by
        obtain ⟨a, after, hend, hQ⟩ := hrest
        exact ⟨a, after, hunrolled.trans hend, hQ⟩
      cases r with
      | inl s' =>
          obtain ⟨hI', hless⟩ := hr
          exact ih _ (hsize ▸ hless) hI' rfl
      | inr b => exact hr

/-- Where the end of one part is known exactly, the composite goes on from there. -/
theorem Returns.bind_value {f : α → Program E R β} {K : β → W → Prop} {a : α}
    (hp : Returns script (fun b after => b = a ∧ after = w') p w)
    (hf : Returns script K (f a) w') : Returns script K (p.bind f) w := by
  refine hp.bind ?_
  intro b after hend
  obtain ⟨rfl, rfl⟩ := hend
  exact hf

end PackageHarness.Interaction
