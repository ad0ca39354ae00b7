/-
# PackageHarness.Interaction.Discipline — guarded requests, a crash invariant, and proof rules.

A `Discipline` adds two things to a `Semantics`: a guard that every request has to meet in the world
in which it is issued, and an invariant of the world that guarded requests and drift preserve.
`Safe D Q p w` says that every configuration reachable from `p` in `w` keeps the invariant, issues
only guarded requests, and that `Q` holds if the program ends. Since the statement ranges over every
intermediate configuration, it is also a statement about every crash point.

`Routine` layers a mutable local state and early exits on top of programs, which is the shape of
code that takes exclusive references and returns a fallible result; `Meets` is the corresponding
contract, with one postcondition for each way out.
-/
import PackageHarness.Interaction.Program

namespace PackageHarness.Interaction

open Relation

/-- A semantics with an obligation at each request and an invariant of the world. -/
structure Discipline (E : Type) (R : E → Type) (W : Type) extends Semantics E R W where
  guard : W → E → Prop
  inv : W → Prop
  inv_answer : ∀ {w e r w'}, inv w → guard w e → answer w e r w' → inv w'
  inv_drift : ∀ {w e w'}, inv w → drift e w w' → inv w'

section Safe

variable {E : Type} {R : E → Type} {W α β : Type}

/-- The configuration, as it stands, obeys the discipline. -/
def Obeys (D : Discipline E R W) (Q : α → W → Prop) (p : Program E R α) (w : W) : Prop :=
  D.inv w ∧ (∀ e next, p = .request e next → D.guard w e) ∧ ∀ a, p = .pure a → Q a w

/-- Nothing the program can reach breaks the discipline, and `Q` holds where it ends. -/
def Safe (D : Discipline E R W) (Q : α → W → Prop) (p : Program E R α) (w : W) : Prop :=
  ∀ p' w', Reaches D.toSemantics (p, w) (p', w') → Obeys D Q p' w'

variable {D : Discipline E R W} {Q Q' : α → W → Prop} {p : Program E R α} {w : W}

theorem Obeys.pure {a : α} (hinv : D.inv w) (h : Q a w) : Obeys D Q (.pure a) w := by
  refine ⟨hinv, ?_, ?_⟩
  · intro e next he
    cases he
  · intro b hb
    cases hb
    exact h

theorem Obeys.request {e : E} {next : R e → Program E R α} (hinv : D.inv w)
    (hguard : D.guard w e) : Obeys D Q (.request e next) w := by
  refine ⟨hinv, ?_, ?_⟩
  · intro e' next' he
    cases he
    exact hguard
  · intro a ha
    cases ha

/-- A loop is about to unroll: it issues nothing and returns nothing. -/
theorem Obeys.loop {σ : Type} {body : σ → Program E R (σ ⊕ β)} {s : σ}
    {next : β → Program E R α} (hinv : D.inv w) : Obeys D Q (.loop body s next) w := by
  refine ⟨hinv, ?_, ?_⟩
  · intro e next' he
    cases he
  · intro a ha
    cases ha

/-- A composite is where its first part is, and its continuation takes over at the end. -/
theorem Obeys.bind {f : α → Program E R β} {K : β → W → Prop} (hp : Obeys D Q p w)
    (hf : ∀ a, Q a w → Obeys D K (f a) w) : Obeys D K (p.bind f) w := by
  obtain ⟨hinv, hguard, hend⟩ := hp
  cases p with
  | pure a => exact hf a (hend a rfl)
  | request e next => exact .request hinv (hguard e next rfl)
  | loop body s next => exact .loop hinv

theorem Safe.obeys (h : Safe D Q p w) : Obeys D Q p w := h p w .refl

theorem Safe.inv (h : Safe D Q p w) : D.inv w := h.obeys.1

theorem Safe.post {a : α} (h : Safe D Q (.pure a) w) : Q a w := h.obeys.2.2 a rfl

/-- Safety is inherited by everything reachable. -/
theorem Safe.reaches {p' : Program E R α} {w' : W} (h : Safe D Q p w)
    (hr : Reaches D.toSemantics (p, w) (p', w')) : Safe D Q p' w' :=
  fun p'' w'' h' => h p'' w'' (hr.trans h')

theorem Safe.mono (h : Safe D Q p w) (hQ : ∀ a w', D.inv w' → Q a w' → Q' a w') :
    Safe D Q' p w := by
  intro p' w' hr
  obtain ⟨hinv, hguard, hpost⟩ := h p' w' hr
  exact ⟨hinv, hguard, fun a ha => hQ a w' hinv (hpost a ha)⟩

/-- Where the program ends may be told by the run that led there. -/
theorem Safe.trail (h : Safe D Q p w) :
    Safe D (fun a w' => Q a w' ∧ Reaches D.toSemantics (p, w) (.pure a, w')) p w := by
  intro p' w' hr
  obtain ⟨hinv, hguard, hpost⟩ := h p' w' hr
  exact ⟨hinv, hguard, fun a ha => ⟨hpost a ha, ha ▸ hr⟩⟩

theorem Safe.pure {a : α} (hinv : D.inv w) (h : Q a w) : Safe D Q (.pure a) w := by
  intro p' w' hr
  rcases ReflTransGen.cases_head hr with heq | ⟨c, hstep, _⟩
  · cases heq
    exact .pure hinv h
  · exact absurd hstep not_step_pure

/-- The rule for a request: from any world it can drift to while pending, it is guarded, and every
answer leads to a safe continuation. -/
theorem Safe.request {e : E} {next : R e → Program E R α} (P : W → Prop) (hinv : D.inv w) (hP : P w)
    (hdrift : ∀ w₁ w₂, D.inv w₁ → P w₁ → D.drift e w₁ w₂ → P w₂)
    (hguard : ∀ w₁, D.inv w₁ → P w₁ → D.guard w₁ e)
    (hnext : ∀ w₁ r w₂, D.inv w₁ → P w₁ → D.answer w₁ e r w₂ → D.inv w₂ → Safe D Q (next r) w₂) :
    Safe D Q (.request e next) w := by
  suffices key : ∀ c, Reaches D.toSemantics (.request e next, w) c →
      (c.1 = .request e next ∧ D.inv c.2 ∧ P c.2) ∨ Safe D Q c.1 c.2 by
    intro p' w' hr
    rcases key _ hr with ⟨hp, hi, hPw⟩ | hs
    · simp only at hp hi hPw
      subst hp
      exact .request hi (hguard w' hi hPw)
    · exact hs.obeys
  intro c hc
  induction hc with
  | refl => exact Or.inl ⟨rfl, hinv, hP⟩
  | @tail b c _ hstep ih =>
      obtain ⟨p₁, w₁⟩ := b
      rcases ih with ⟨hp, hi, hPw⟩ | hs
      · simp only at hp hi hPw
        subst hp
        cases hstep with
        | answer hr =>
            have hi' := D.inv_answer hi (hguard w₁ hi hPw) hr
            exact Or.inr (hnext w₁ _ _ hi hPw hr hi')
        | drift hd => exact Or.inl ⟨rfl, D.inv_drift hi hd, hdrift w₁ _ hi hPw hd⟩
      · exact Or.inr (hs.reaches (.single hstep))

/-- A request during which the world does not move on its own. -/
def Discipline.Still (D : Discipline E R W) (e : E) : Prop := ∀ w w', D.drift e w w' → w' = w

theorem Safe.request_still {e : E} {next : R e → Program E R α} (hstill : D.Still e)
    (hinv : D.inv w) (hguard : D.guard w e)
    (hnext : ∀ r w', D.answer w e r w' → D.inv w' → Safe D Q (next r) w') :
    Safe D Q (.request e next) w := by
  refine Safe.request (· = w) hinv rfl ?_ ?_ ?_
  · intro w₁ w₂ _ h₁ hd
    rw [hstill _ _ hd, h₁]
  · intro w₁ _ heq
    subst heq
    exact hguard
  · intro w₁ r w₂ _ heq hr hi
    subst heq
    exact hnext r w₂ hr hi

theorem Safe.bind {f : α → Program E R β} {K : β → W → Prop} (hp : Safe D Q p w)
    (hf : ∀ a w', D.inv w' → Q a w' → Safe D K (f a) w') : Safe D K (p.bind f) w := by
  intro q w' hr
  rcases hr.of_bind with ⟨p', rfl, hp'⟩ | ⟨a, w₁, hpa, hq⟩
  · have hs := hp.reaches hp'
    exact hs.obeys.bind fun a hQ => (hf a w' hs.inv hQ).obeys
  · have hs := hp.reaches hpa
    exact hf a w₁ hs.inv hs.post q w' hq

/-- The assertion at the end of a round: `I` if the loop goes on, `K` if it is left. -/
def roundEnds {σ : Type} (I : σ → W → Prop) (K : β → W → Prop) : σ ⊕ β → W → Prop
  | .inl s => I s
  | .inr b => K b

/-- The loop rule: an assertion that every round either re-establishes or leaves into code that is
safe from there. -/
theorem Safe.loop {σ : Type} {body : σ → Program E R (σ ⊕ β)} {next : β → Program E R α}
    (I : σ → W → Prop) {s : σ} (hinv : D.inv w) (hI : I s w)
    (hbody : ∀ t w', D.inv w' → I t w' →
      Safe D (roundEnds I fun b => Safe D Q (next b)) (body t) w') :
    Safe D Q (.loop body s next) w := by
  -- a configuration is at the loop head, inside a round, or behind the loop
  suffices key : ∀ c, Reaches D.toSemantics (.loop body s next, w) c →
      (∃ t, c.1 = .loop body t next ∧ D.inv c.2 ∧ I t c.2) ∨
      (∃ q, c.1 = q.bind (.afterRound body next) ∧
        Safe D (roundEnds I fun b => Safe D Q (next b)) q c.2) ∨
      Safe D Q c.1 c.2 by
    intro p' w' hr
    rcases key _ hr with ⟨t, hp, hi, _⟩ | ⟨q, hp, hq⟩ | hs
    · simp only at hp hi
      subst hp
      exact .loop hi
    · simp only at hp hq
      subst hp
      refine hq.obeys.bind ?_
      intro r hr
      cases r with
      | inl t => exact .loop hq.inv
      | inr b => exact Safe.obeys hr
    · exact hs.obeys
  intro c hc
  induction hc with
  | refl => exact Or.inl ⟨s, rfl, hinv, hI⟩
  | @tail b c _ hstep ih =>
      obtain ⟨p₁, w₁⟩ := b
      obtain ⟨p₂, w₂⟩ := c
      have enter : ∀ t, D.inv w₁ → I t w₁ → Step D.toSemantics (.loop body t next, w₁) (p₂, w₂) →
          ∃ q, p₂ = q.bind (.afterRound body next) ∧
            Safe D (roundEnds I fun b => Safe D Q (next b)) q w₂ := by
        intro t hi hIt hs
        cases hs with
        | unroll => exact ⟨body t, rfl, hbody t w₁ hi hIt⟩
      rcases ih with ⟨t, hp, hi, hIt⟩ | ⟨q, hp, hq⟩ | hs
      · simp only at hp hi hIt
        subst hp
        exact Or.inr (Or.inl (enter t hi hIt hstep))
      · simp only at hp hq
        subst hp
        rcases hstep.of_bind with ⟨q', hq', hs⟩ | ⟨r, rfl, hs⟩
        · exact Or.inr (Or.inl ⟨q', hq', hq.reaches (.single hs)⟩)
        · cases r with
          | inl t => exact Or.inr (Or.inl (enter t hq.inv hq.post hs))
          | inr b => exact Or.inr (Or.inr (Safe.reaches hq.post (.single hs)))
      · exact Or.inr (Or.inr (hs.reaches (.single hstep)))

end Safe

/-! ## Disciplines seen through a smaller signature -/

section Comap

variable {E E' : Type} {R : E → Type} {R' : E' → Type} {W α : Type}

/-- The discipline a program has to follow so that its translation follows `D`. -/
def Discipline.comap (D : Discipline E' R' W) (f : E → E') (g : ∀ e, R' (f e) → R e) :
    Discipline E R W where
  answer := fun w e r w' => ∃ r', g e r' = r ∧ D.answer w (f e) r' w'
  drift := fun e => D.drift (f e)
  guard := fun w e => D.guard w (f e)
  inv := D.inv
  inv_answer := fun hi hg ⟨_, _, ha⟩ => D.inv_answer hi hg ha
  inv_drift := fun hi hd => D.inv_drift hi hd

variable {D : Discipline E' R' W} {f : E → E'} {g : ∀ e, R' (f e) → R e}

theorem Step.of_translate {p : Program E R α} {w : W} {c : Program E' R' α × W}
    (h : Step D.toSemantics (p.translate f g, w) c) :
    ∃ p', c.1 = p'.translate f g ∧ Step (D.comap f g).toSemantics (p, w) (p', c.2) := by
  cases p with
  | pure a => exact absurd h not_step_pure
  | request e next =>
      cases h with
      | @answer _ _ _ r _ hr => exact ⟨next (g e r), rfl, .answer ⟨r, rfl, hr⟩⟩
      | drift hd => exact ⟨.request e next, rfl, .drift hd⟩
  | loop body s next =>
      cases h with
      | unroll =>
          refine ⟨(body s).bind (.afterRound body next), ?_, .unroll⟩
          show ((body s).translate f g).bind _ = _
          rw [Program.translate_bind]
          congr 1
          funext r
          cases r <;> rfl

theorem Obeys.translate {Q : α → W → Prop} {p : Program E R α} {w : W}
    (h : Obeys (D.comap f g) Q p w) : Obeys D Q (p.translate f g) w := by
  obtain ⟨hinv, hguard, hend⟩ := h
  cases p with
  | pure a => exact .pure hinv (hend a rfl)
  | request e next => exact .request hinv (hguard e next rfl)
  | loop body s next => exact .loop hinv

/-- Safety transfers along a translation. -/
theorem Safe.translate {Q : α → W → Prop} {p : Program E R α} {w : W}
    (h : Safe (D.comap f g) Q p w) : Safe D Q (p.translate f g) w := by
  intro q w' hr
  have key : ∃ p', q = p'.translate f g ∧ Reaches (D.comap f g).toSemantics (p, w) (p', w') := by
    suffices k : ∀ c, Reaches D.toSemantics (p.translate f g, w) c →
        ∃ p', c.1 = p'.translate f g ∧ Reaches (D.comap f g).toSemantics (p, w) (p', c.2) by
      exact k _ hr
    intro c hc
    induction hc with
    | refl => exact ⟨p, rfl, .refl⟩
    | @tail b c _ hstep ih =>
        obtain ⟨q₁, w₁⟩ := b
        obtain ⟨p', hq, hp⟩ := ih
        simp only at hq
        subst hq
        obtain ⟨p'', hc', hs⟩ := hstep.of_translate
        exact ⟨p'', hc', hp.tail hs⟩
  obtain ⟨p', rfl, hp⟩ := key
  exact (h p' w' hp).translate

end Comap

/-! ## Effect bounds -/

section Within

variable {E : Type} {R : E → Type} {W α β : Type}

/-- Surroundings without a state that may answer anything, but accept only `allowed` requests. -/
def anything (allowed : E → Prop) : Discipline E R Unit where
  answer := fun _ _ _ _ => True
  drift := fun _ _ _ => True
  guard := fun _ e => allowed e
  inv := fun _ => True
  inv_answer := fun _ _ _ => trivial
  inv_drift := fun _ _ => trivial

/-- Whatever it is answered, the program issues only `allowed` requests and ends in `post`. -/
def Within (allowed : E → Prop) (post : α → Prop) (p : Program E R α) : Prop :=
  Safe (anything allowed) (fun a _ => post a) p ()

variable {allowed : E → Prop} {post : α → Prop} {p : Program E R α}

theorem Within.pure {a : α} (h : post a) : Within allowed post (.pure a : Program E R α) :=
  Safe.pure trivial h

theorem Within.perform {e : E} {next : R e → Program E R α} (he : allowed e)
    (h : ∀ r, Within allowed post (next r)) : Within allowed post (Program.perform e >>= next) :=
  Safe.request (fun _ => True) trivial trivial (fun _ _ _ _ _ => trivial) (fun _ _ _ => he)
    fun _ r _ _ _ _ _ => h r

/-- A bound may be widened. -/
theorem Within.mono {allowed' : E → Prop} {post' : α → Prop} (h : Within allowed post p)
    (hallowed : ∀ e, allowed e → allowed' e) (hpost : ∀ a, post a → post' a) :
    Within allowed' post' p := by
  intro q w hr
  obtain ⟨_, hguard, hend⟩ := h q w hr
  exact ⟨trivial, fun e next he => hallowed e (hguard e next he), fun a ha => hpost a (hend a ha)⟩

theorem Within.ask {e : E} (he : allowed e) :
    Within allowed (fun _ => True) (Program.perform e : Program E R (R e)) :=
  Within.perform he fun _ => Within.pure trivial

theorem Within.bind {f : α → Program E R β} {post' : β → Prop} (hp : Within allowed post p)
    (hf : ∀ a, post a → Within allowed post' (f a)) : Within allowed post' (p >>= f) :=
  Safe.bind hp fun a _ _ ha => hf a ha

/-- An effect bound discharges a contract: an assertion that makes every allowed request guarded
and survives its answers holds throughout, and on return together with the bound's postcondition. -/
theorem Within.safe {D : Discipline E R W} {w : W} (h : Within allowed post p) (P : W → Prop)
    (hinv : D.inv w) (hP : P w)
    (hguard : ∀ e w₁, allowed e → D.inv w₁ → P w₁ → D.guard w₁ e)
    (hanswer : ∀ e w₁ r w₂, allowed e → D.inv w₁ → P w₁ → D.answer w₁ e r w₂ → P w₂)
    (hdrift : ∀ e w₁ w₂, allowed e → D.inv w₁ → P w₁ → D.drift e w₁ w₂ → P w₂) :
    Safe D (fun a w' => P w' ∧ post a) p w := by
  have free : ∀ c, Reaches D.toSemantics (p, w) c →
      Reaches (anything (R := R) allowed).toSemantics (p, ()) (c.1, ()) := fun c hc =>
    hc.project (fun _ => ()) (fun _ _ _ _ _ => trivial) fun _ _ _ _ => Or.inl trivial
  have kept : ∀ c, Reaches D.toSemantics (p, w) c → D.inv c.2 ∧ P c.2 := by
    intro c hc
    induction hc with
    | refl => exact ⟨hinv, hP⟩
    | @tail b c hb hstep ih =>
        obtain ⟨hi, hPb⟩ := ih
        have hbound := h _ _ (free b hb)
        cases hstep with
        | answer hr =>
            have he := hbound.2.1 _ _ rfl
            exact ⟨D.inv_answer hi (hguard _ _ he hi hPb) hr, hanswer _ _ _ _ he hi hPb hr⟩
        | drift hd =>
            have he := hbound.2.1 _ _ rfl
            exact ⟨D.inv_drift hi hd, hdrift _ _ _ he hi hPb hd⟩
        | unroll => exact ⟨hi, hPb⟩
  intro p' w' hr
  obtain ⟨hi, hPw⟩ := kept _ hr
  obtain ⟨_, hissue, hend⟩ := h _ _ (free _ hr)
  exact ⟨hi, fun e next he => hguard e w' (hissue e next he) hi hPw, fun a ha => ⟨hPw, hend a ha⟩⟩

end Within

/-! ## Routines: local state and early exits -/

/-- Code with a mutable local state `σ` that may leave early with an `ε`. The state survives the
early exit. -/
def Routine (E : Type) (R : E → Type) (σ ε α : Type) : Type 1 := σ → Program E R (Except ε α × σ)

namespace Routine

variable {E : Type} {R : E → Type} {σ ε ε' α β : Type}

def pure (a : α) : Routine E R σ ε α := fun s => .pure (.ok a, s)

def bind (m : Routine E R σ ε α) (f : α → Routine E R σ ε β) : Routine E R σ ε β := fun s =>
  (m s).bind fun
    | (.ok a, s') => f a s'
    | (.error e, s') => .pure (.error e, s')

instance : Monad (Routine E R σ ε) where
  pure := Routine.pure
  bind := Routine.bind

def throw (e : ε) : Routine E R σ ε α := fun s => .pure (.error e, s)

def read : Routine E R σ ε σ := fun s => .pure (.ok s, s)

def update (f : σ → σ) : Routine E R σ ε Unit := fun s => .pure (.ok (), f s)

/-- Runs a program that does not touch the local state. -/
def run (p : Program E R α) : Routine E R σ ε α := fun s => p.bind fun a => .pure (.ok a, s)

def ofExcept : Except ε α → Routine E R σ ε α
  | .ok a => pure a
  | .error e => throw e

def mapError (f : ε → ε') (m : Routine E R σ ε α) : Routine E R σ ε' α := fun s =>
  (m s).bind fun
    | (.ok a, s') => .pure (.ok a, s')
    | (.error e, s') => .pure (.error (f e), s')

/-- Turns an early exit into a value. -/
def attempt {δ : Type} (m : Routine E R σ ε α) : Routine E R σ δ (Except ε α) := fun s =>
  (m s).bind fun (r, s') => .pure (.ok r, s')

/-- The end of one round of a routine's loop, with the local state threaded through. -/
def roundResult {τ : Type} : Except ε (τ ⊕ α) × σ → (τ × σ) ⊕ (Except ε α × σ)
  | (.ok (.inl t), s) => .inl (t, s)
  | (.ok (.inr a), s) => .inr (.ok a, s)
  | (.error e, s) => .inr (.error e, s)

/-- Repeats `body` until it answers `inr` or leaves early. -/
def iterate {τ : Type} (body : τ → Routine E R σ ε (τ ⊕ α)) (t : τ) : Routine E R σ ε α := fun s =>
  .loop (fun ts : τ × σ => (body ts.1 ts.2).bind fun r => .pure (roundResult r)) (t, s) .pure

variable {W : Type} (D : Discipline E R W)

/-- The postcondition of a routine, by the way it ended. -/
def ends (Q : α → σ → W → Prop) (F : ε → σ → W → Prop) : Except ε α × σ → W → Prop
  | (.ok a, s) => Q a s
  | (.error e, s) => F e s

/-- One assertion for each way in which a step that may fail has ended. -/
def byOutcome (Q : α → σ → W → Prop) (F : ε → σ → W → Prop) : Except ε α → σ → W → Prop
  | .ok a => Q a
  | .error e => F e

/-- From `P`, the routine is safe, returns into `Q` and leaves early into `F`. -/
def Meets (P : σ → W → Prop) (m : Routine E R σ ε α) (Q : α → σ → W → Prop)
    (F : ε → σ → W → Prop) : Prop :=
  ∀ s w, D.inv w → P s w → Safe D (ends Q F) (m s) w

variable {D} {P P' : σ → W → Prop} {m : Routine E R σ ε α} {Q Q' : α → σ → W → Prop}
  {F F' : ε → σ → W → Prop}

theorem Meets.pure {a : α} (h : ∀ s w, D.inv w → P s w → Q a s w) :
    Meets D P (Pure.pure a : Routine E R σ ε α) Q F :=
  fun s w hi hP => Safe.pure hi (h s w hi hP)

theorem Meets.throw {e : ε} (h : ∀ s w, D.inv w → P s w → F e s w) :
    Meets D P (Routine.throw e : Routine E R σ ε α) Q F :=
  fun s w hi hP => Safe.pure hi (h s w hi hP)

theorem Meets.update {f : σ → σ} {Q : Unit → σ → W → Prop}
    (h : ∀ s w, D.inv w → P s w → Q () (f s) w) :
    Meets D P (Routine.update f : Routine E R σ ε Unit) Q F :=
  fun s w hi hP => Safe.pure hi (h s w hi hP)

theorem Meets.run {p : Program E R α}
    (h : ∀ s w, D.inv w → P s w → Safe D (fun a w' => Q a s w') p w) :
    Meets D P (Routine.run p : Routine E R σ ε α) Q F :=
  fun s w hi hP => (h s w hi hP).bind fun _ _ hi' hQ => Safe.pure hi' hQ

theorem Meets.ofExcept {r : Except ε α}
    (hok : ∀ a s w, r = .ok a → D.inv w → P s w → Q a s w)
    (herr : ∀ e s w, r = .error e → D.inv w → P s w → F e s w) :
    Meets D P (Routine.ofExcept r : Routine E R σ ε α) Q F := by
  cases r with
  | ok a => exact Meets.pure fun s w hi hP => hok a s w rfl hi hP
  | error e => exact Meets.throw fun s w hi hP => herr e s w rfl hi hP

theorem Meets.bind {f : α → Routine E R σ ε β} {K : β → σ → W → Prop}
    (hm : Meets D P m Q F) (hf : ∀ a, Meets D (Q a) (f a) K F) : Meets D P (m >>= f) K F := by
  intro s w hi hP
  refine (hm s w hi hP).bind ?_
  intro c w' hi' hr
  obtain ⟨r, s'⟩ := c
  cases r with
  | ok a => exact hf a s' w' hi' hr
  | error e => exact Safe.pure hi' hr

/-- Code that reads the local state runs in the state that it has read. -/
theorem Meets.bind_read {f : σ → Routine E R σ ε β} {K : β → σ → W → Prop}
    (hf : ∀ t, Meets D (fun s w => t = s ∧ P s w) (f t) K F) :
    Meets D P (Routine.read >>= f) K F :=
  fun s w hi hP => hf s s w hi ⟨rfl, hP⟩

/-- The same, where nothing depends on what was read. -/
theorem Meets.bind_read_any {f : σ → Routine E R σ ε β} {K : β → σ → W → Prop}
    (hf : ∀ t, Meets D P (f t) K F) : Meets D P (Routine.read >>= f) K F :=
  fun s w hi hP => hf s s w hi hP

theorem Meets.mapError {g : ε → ε'} {G : ε' → σ → W → Prop}
    (hm : Meets D P m Q fun e => G (g e)) : Meets D P (m.mapError g) Q G := by
  intro s w hi hP
  refine (hm s w hi hP).bind ?_
  intro c w' hi' hr
  obtain ⟨r, s'⟩ := c
  cases r with
  | ok a => exact Safe.pure hi' hr
  | error e => exact Safe.pure hi' hr

theorem Meets.attempt {K : Except ε α → σ → W → Prop} {G : ε' → σ → W → Prop}
    (hm : Meets D P m (fun a => K (.ok a)) fun e => K (.error e)) :
    Meets D P (m.attempt : Routine E R σ ε' (Except ε α)) K G := by
  intro s w hi hP
  refine (hm s w hi hP).bind ?_
  intro c w' hi' hr
  obtain ⟨r, s'⟩ := c
  cases r with
  | ok a => exact Safe.pure hi' hr
  | error e => exact Safe.pure hi' hr

/-- The assertion at the end of a round of a routine's loop. -/
def nextRound {τ : Type} (I : τ → σ → W → Prop) (Q : α → σ → W → Prop) : τ ⊕ α → σ → W → Prop
  | .inl t => I t
  | .inr a => Q a

theorem Meets.iterate {τ : Type} {body : τ → Routine E R σ ε (τ ⊕ α)} {t : τ}
    (I : τ → σ → W → Prop) (hI : ∀ s w, D.inv w → P s w → I t s w)
    (hbody : ∀ t, Meets D (I t) (body t) (nextRound I Q) F) :
    Meets D P (Routine.iterate body t) Q F := by
  intro s w hi hP
  refine Safe.loop (fun ts => I ts.1 ts.2) hi (hI s w hi hP) ?_
  intro c w' hi' hI'
  obtain ⟨t', s'⟩ := c
  refine (hbody t' s' w' hi' hI').bind ?_
  intro c w'' hi'' hr
  obtain ⟨r, s''⟩ := c
  refine Safe.pure hi'' ?_
  rcases r with e | (t'' | a)
  · exact Safe.pure hi'' hr
  · exact hr
  · exact Safe.pure hi'' hr

theorem Meets.weaken (hm : Meets D P' m Q' F') (hP : ∀ s w, D.inv w → P s w → P' s w)
    (hQ : ∀ a s w, D.inv w → Q' a s w → Q a s w) (hF : ∀ e s w, D.inv w → F' e s w → F e s w) :
    Meets D P m Q F := by
  intro s w hi hPs
  refine (hm s w hi (hP s w hi hPs)).mono ?_
  intro c w' hi' hr
  obtain ⟨r, s'⟩ := c
  cases r with
  | ok a => exact hQ a s' w' hi' hr
  | error e => exact hF e s' w' hi' hr

/-- What does not depend on the state may be assumed beforehand. -/
theorem Meets.given {p : Prop} (hm : p → Meets D P m Q F) :
    Meets D (fun s w => p ∧ P s w) m Q F :=
  fun s w hi hP => hm hP.1 s w hi hP.2

/-- A contract may be used from a stronger precondition. -/
theorem Meets.pre (hm : Meets D P' m Q F) (hP : ∀ s w, D.inv w → P s w → P' s w) :
    Meets D P m Q F :=
  hm.weaken hP (fun _ _ _ _ h => h) fun _ _ _ _ h => h

end Routine

end PackageHarness.Interaction
