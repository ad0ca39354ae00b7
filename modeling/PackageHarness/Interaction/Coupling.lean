/-
# PackageHarness.Interaction.Coupling — two runs in surroundings that answer them alike.

A `Likeness` says which requests of two conversations correspond and when two exchanges count as
alike; `Agree` is what it means that the surroundings behave identically in both: as long as the
conversations are alike, corresponding requests get like answers. `Coupled` relates where two
programs end in such surroundings, and `Couples` does so for routines, with rules in the style of
the one-run contracts. Code that does the same in both runs is taken over by `Couples.same`.
-/
import Mathlib.Data.List.Forall2
import PackageHarness.Interaction.Transcript

namespace PackageHarness.Interaction

open Relation

/-- When requests of two conversations correspond, and exchanges of them are alike. -/
structure Likeness (E : Type) (R : E → Type) where
  asks : E → E → Prop
  like : Exchange E R → Exchange E R → Prop

section Coupled

variable {E : Type} {R : E → Type} {α β : Type}

namespace Likeness

variable (L : Likeness E R)

/-- The conversations are alike throughout. -/
abbrev Alike : Transcript E R → Transcript E R → Prop := List.Forall₂ L.like

/-- In these two conversations the surroundings have behaved identically. -/
def Agree (u u' : Transcript E R) : Prop :=
  ∀ {x x' t t'}, x :: t <:+ u → x' :: t' <:+ u' → L.Alike t t' → L.asks x.request x'.request →
    L.like x x'

/-- A request that corresponds to itself, and whose like answers are equal. -/
def Plain (e : E) : Prop :=
  L.asks e e ∧ ∀ r r' : R e, L.like ⟨e, r⟩ ⟨e, r'⟩ → r = r'

end Likeness

/-- From alike conversations, the two programs end with alike conversations and in `Q`. -/
def Coupled (L : Likeness E R) (u u' : Transcript E R)
    (Q : α → Transcript E R → β → Transcript E R → Prop) (c : Program E R α × Transcript E R)
    (c' : Program E R β × Transcript E R) : Prop :=
  L.Alike c.2 c'.2 → ∀ a t b t', Reaches recording c (.pure a, t) →
    Reaches recording c' (.pure b, t') → t <:+ u → t' <:+ u' → L.Alike t t' ∧ Q a t b t'

variable {L : Likeness E R} {u u' t t' : Transcript E R}
  {Q Q' : α → Transcript E R → α → Transcript E R → Prop} {p p' : Program E R α}

theorem Coupled.pure {a a' : α} (h : Q a t a' t') :
    Coupled L u u' Q (.pure a, t) (.pure a', t') := by
  intro halike b v b' v' hr hr' _ _
  cases hr.of_pure
  cases hr'.of_pure
  exact ⟨halike, h⟩

theorem Coupled.mono (h : Coupled L u u' Q (p, t) (p', t'))
    (hQ : ∀ a v a' v', Q a v a' v' → Q' a v a' v') : Coupled L u u' Q' (p, t) (p', t') := by
  intro halike a v a' v' hr hr' hu hu'
  obtain ⟨hends, hQ'⟩ := h halike a v a' v' hr hr' hu hu'
  exact ⟨hends, hQ a v a' v' hQ'⟩

theorem Coupled.request (hagree : L.Agree u u') {e e' : E} {next : R e → Program E R α}
    {next' : R e' → Program E R α} (hasks : L.asks e e')
    (hnext : ∀ r r', L.like ⟨e, r⟩ ⟨e', r'⟩ →
      Coupled L u u' Q (next r, ⟨e, r⟩ :: t) (next' r', ⟨e', r'⟩ :: t')) :
    Coupled L u u' Q (.request e next, t) (.request e' next', t') := by
  intro halike a v a' v' hr hr' hu hu'
  obtain ⟨r, hr⟩ := hr.of_request
  obtain ⟨r', hr'⟩ := hr'.of_request
  have hlike : L.like ⟨e, r⟩ ⟨e', r'⟩ :=
    hagree (hr.suffix.trans hu) (hr'.suffix.trans hu') halike hasks
  exact hnext r r' hlike (.cons hlike halike) a v a' v' hr hr' hu hu'

theorem Coupled.bind {β' : Type} {f f' : α → Program E R β'}
    {K : β' → Transcript E R → β' → Transcript E R → Prop}
    (h : Coupled L u u' Q (p, t) (p', t'))
    (hf : ∀ a v a' v', Q a v a' v' → Coupled L u u' K (f a, v) (f' a', v')) :
    Coupled L u u' K (p.bind f, t) (p'.bind f', t') := by
  intro halike b w b' w' hr hr' hu hu'
  obtain ⟨a, v, hp, hr⟩ := hr.of_bind_pure
  obtain ⟨a', v', hp', hr'⟩ := hr'.of_bind_pure
  obtain ⟨hends, hQ⟩ := h halike a v a' v' hp hp' (hr.suffix.trans hu) (hr'.suffix.trans hu')
  exact hf a v a' v' hQ hends b w b' w' hr hr' hu hu'

/-- One program in both runs, whose requests are plain: it says and ends the same in both. -/
theorem Coupled.same (hagree : L.Agree u u')
    (hplain : ∀ e next w, Reaches recording (p, t) (.request e next, w) → L.Plain e) :
    Coupled L u u' (fun a v a' v' => a = a' ∧ ∃ more, v = more ++ t ∧ v' = more ++ t')
      (p, t) (p, t') := by
  intro halike a v a' v' hr hr' hu hu'
  suffices key : ∀ c, Reaches recording (p, t) c → Reaches recording c (.pure a, v) →
      ∀ w', Reaches recording (c.1, w') (.pure a', v') → L.Alike c.2 w' →
        L.Alike v v' ∧ a = a' ∧ ∃ more, v = more ++ c.2 ∧ v' = more ++ w' by
    exact key (p, t) .refl hr t' hr' halike
  intro c hc hrest
  -- on the first run, from its end
  induction hrest using ReflTransGen.head_induction_on with
  | refl =>
      intro w' hr' halike
      cases hr'.of_pure
      exact ⟨halike, rfl, [], rfl, rfl⟩
  | head hstep hrest ih =>
      intro w' hr' halike
      have hreached := hc.tail hstep
      cases hstep with
      | @answer e next w r _ ha =>
          cases ha
          obtain ⟨r', hr'⟩ := hr'.of_request
          have hrequest := hplain e next w hc
          have hlike : L.like ⟨e, r⟩ ⟨e, r'⟩ :=
            hagree ((Reaches.suffix hrest).trans hu) (hr'.suffix.trans hu') halike hrequest.1
          cases hrequest.2 r r' hlike
          obtain ⟨hends, hsame, more, hv, hv'⟩ := ih hreached _ hr' (.cons hlike halike)
          exact ⟨hends, hsame, more ++ [⟨e, r⟩], by simpa using hv, by simpa using hv'⟩
      | drift hd => exact hd.elim
      | unroll => exact ih hreached _ hr'.of_loop halike

end Coupled

/-! ## Routines -/

namespace Routine

section Couples

variable {E : Type} {R : E → Type} {σ ε ε' α β : Type}

/-- Both routines have returned into `Q`, or both have left early into `F`. -/
def coupledEnds (Q : α → σ → Transcript E R → α → σ → Transcript E R → Prop)
    (F : ε → σ → Transcript E R → ε → σ → Transcript E R → Prop) :
    Except ε α × σ → Transcript E R → Except ε α × σ → Transcript E R → Prop
  | (.ok a, s), t, (.ok a', s'), t' => Q a s t a' s' t'
  | (.error e, s), t, (.error e', s'), t' => F e s t e' s' t'
  | _, _, _, _ => False

variable (L : Likeness E R) (u u' : Transcript E R)

/-- From `P`, both routines go the same way out, into `Q` or into `F`. -/
def Couples (P : σ → Transcript E R → σ → Transcript E R → Prop) (m m' : Routine E R σ ε α)
    (Q : α → σ → Transcript E R → α → σ → Transcript E R → Prop)
    (F : ε → σ → Transcript E R → ε → σ → Transcript E R → Prop) : Prop :=
  ∀ s t s' t', P s t s' t' → Coupled L u u' (coupledEnds Q F) (m s, t) (m' s', t')

variable {L u u'} {P P' : σ → Transcript E R → σ → Transcript E R → Prop}
  {m m' : Routine E R σ ε α} {Q Q' : α → σ → Transcript E R → α → σ → Transcript E R → Prop}
  {F F' : ε → σ → Transcript E R → ε → σ → Transcript E R → Prop}

theorem Couples.pure {a a' : α} (h : ∀ s t s' t', P s t s' t' → Q a s t a' s' t') :
    Couples L u u' P (Pure.pure a) (Pure.pure a') Q F :=
  fun s t s' t' hP => Coupled.pure (h s t s' t' hP)

theorem Couples.throw {e e' : ε} (h : ∀ s t s' t', P s t s' t' → F e s t e' s' t') :
    Couples L u u' P (Routine.throw e : Routine E R σ ε α) (Routine.throw e') Q F :=
  fun s t s' t' hP => Coupled.pure (h s t s' t' hP)

theorem Couples.update {f f' : σ → σ} {Q : Unit → σ → Transcript E R → Unit → σ →
    Transcript E R → Prop} (h : ∀ s t s' t', P s t s' t' → Q () (f s) t () (f' s') t') :
    Couples L u u' P (Routine.update f : Routine E R σ ε Unit) (Routine.update f') Q F :=
  fun s t s' t' hP => Coupled.pure (h s t s' t' hP)

theorem Couples.bind {f f' : α → Routine E R σ ε β}
    {K : β → σ → Transcript E R → β → σ → Transcript E R → Prop}
    (hm : Couples L u u' P m m' Q F)
    (hf : ∀ a a', Couples L u u' (fun s t s' t' => Q a s t a' s' t') (f a) (f' a') K F) :
    Couples L u u' P (m >>= f) (m' >>= f') K F := by
  intro s t s' t' hP
  refine (hm s t s' t' hP).bind ?_
  rintro ⟨r, s₁⟩ t₁ ⟨r', s₁'⟩ t₁' hends
  rcases r with e | a <;> rcases r' with e' | a'
  · exact Coupled.pure hends
  · exact hends.elim
  · exact hends.elim
  · exact hf a a' s₁ t₁ s₁' t₁' hends

/-- Code that reads the local state runs in the states that were read. -/
theorem Couples.bind_read {f f' : σ → Routine E R σ ε β}
    {K : β → σ → Transcript E R → β → σ → Transcript E R → Prop}
    (hf : ∀ r r', Couples L u u' (fun s t s' t' => r = s ∧ r' = s' ∧ P s t s' t') (f r) (f' r')
      K F) :
    Couples L u u' P (Routine.read >>= f) (Routine.read >>= f') K F :=
  fun s t s' t' hP => hf s s' s t s' t' ⟨rfl, rfl, hP⟩

/-- One request in each run, and what follows on its answers. -/
theorem Couples.bind_ask (hagree : L.Agree u u') {e e' : E} {f : R e → Routine E R σ ε β}
    {f' : R e' → Routine E R σ ε β}
    {K : β → σ → Transcript E R → β → σ → Transcript E R → Prop}
    (hasks : ∀ s t s' t', P s t s' t' → L.asks e e')
    (hf : ∀ r r', L.like ⟨e, r⟩ ⟨e', r'⟩ → Couples L u u'
      (fun s t s' t' => ∃ before before', t = ⟨e, r⟩ :: before ∧ t' = ⟨e', r'⟩ :: before' ∧
        P s before s' before') (f r) (f' r') K F) :
    Couples L u u' P (Routine.run (Program.perform e) >>= f)
      (Routine.run (Program.perform e') >>= f') K F := by
  intro s t s' t' hP
  exact Coupled.request hagree (hasks s t s' t' hP) fun r r' hlike =>
    hf r r' hlike s _ s' _ ⟨t, t', rfl, rfl, hP⟩

theorem Couples.given {q : Prop} (hm : q → Couples L u u' P m m' Q F) :
    Couples L u u' (fun s t s' t' => q ∧ P s t s' t') m m' Q F :=
  fun s t s' t' hP => hm hP.1 s t s' t' hP.2

theorem Couples.weaken (hm : Couples L u u' P' m m' Q' F')
    (hP : ∀ s t s' t', P s t s' t' → P' s t s' t')
    (hQ : ∀ a s t a' s' t', Q' a s t a' s' t' → Q a s t a' s' t')
    (hF : ∀ e s t e' s' t', F' e s t e' s' t' → F e s t e' s' t') :
    Couples L u u' P m m' Q F := by
  intro s t s' t' hPs
  refine (hm s t s' t' (hP s t s' t' hPs)).mono ?_
  rintro ⟨r, s₁⟩ t₁ ⟨r', s₁'⟩ t₁' hends
  rcases r with e | a <;> rcases r' with e' | a'
  · exact hF _ _ _ _ _ _ hends
  · exact hends.elim
  · exact hends.elim
  · exact hQ _ _ _ _ _ _ hends

theorem Couples.mapError {g g' : ε → ε'}
    {G : ε' → σ → Transcript E R → ε' → σ → Transcript E R → Prop}
    (hm : Couples L u u' P m m' Q fun e s t e' s' t' => G (g e) s t (g' e') s' t') :
    Couples L u u' P (m.mapError g) (m'.mapError g') Q G := by
  intro s t s' t' hP
  refine (hm s t s' t' hP).bind ?_
  rintro ⟨r, s₁⟩ t₁ ⟨r', s₁'⟩ t₁' hends
  rcases r with e | a <;> rcases r' with e' | a'
  · exact Coupled.pure hends
  · exact hends.elim
  · exact hends.elim
  · exact Coupled.pure hends

/-- Either both attempts have succeeded, or both have failed. -/
def bothOutcomes (Q : α → σ → Transcript E R → α → σ → Transcript E R → Prop)
    (F : ε → σ → Transcript E R → ε → σ → Transcript E R → Prop) :
    Except ε α → σ → Transcript E R → Except ε α → σ → Transcript E R → Prop :=
  fun r s t r' s' t' => coupledEnds Q F (r, s) t (r', s') t'

theorem Couples.attempt {G : ε' → σ → Transcript E R → ε' → σ → Transcript E R → Prop}
    (hm : Couples L u u' P m m' Q F) :
    Couples L u u' P (m.attempt : Routine E R σ ε' (Except ε α)) m'.attempt (bothOutcomes Q F)
      G := by
  intro s t s' t' hP
  refine (hm s t s' t' hP).bind ?_
  rintro ⟨r, s₁⟩ t₁ ⟨r', s₁'⟩ t₁' hends
  exact Coupled.pure hends

/-- Both runs are at the same point. -/
def Twice (P : σ → Transcript E R → Prop) (s : σ) (t : Transcript E R) (s' : σ)
    (t' : Transcript E R) : Prop :=
  s' = s ∧ t' = t ∧ P s t

/-- Plain code keeps both runs at the same point. -/
theorem Couples.same (hagree : L.Agree u u') {guard : Transcript E R → E → Prop}
    {P : σ → Transcript E R → Prop} {Q : α → σ → Transcript E R → Prop}
    {F : ε → σ → Transcript E R → Prop} (hm : Meets (recorded guard) P m Q F)
    (hplain : ∀ t e, guard t e → L.Plain e) :
    Couples L u u' (Twice P) m m (fun a s t a' s' t' => a' = a ∧ Twice (Q a) s t s' t')
      fun e s t e' s' t' => e' = e ∧ Twice (F e) s t s' t' := by
  rintro s t s' t' ⟨rfl, rfl, hP⟩ halike a v a' v' hr hr' hu hu'
  have hsafe := hm s' t' trivial hP
  have hrequests : ∀ e next w, Reaches recording (m s', t') (.request e next, w) → L.Plain e :=
    fun e next w hreached => hplain w e ((hsafe _ _ hreached).2.1 e next rfl)
  obtain ⟨hends, hsame, more, hv, hv'⟩ :=
    Coupled.same hagree hrequests halike a v a' v' hr hr' hu hu'
  subst hsame hv hv'
  refine ⟨hends, ?_⟩
  have hpost := hsafe.ends hr
  obtain ⟨r, s₁⟩ := a
  rcases r with e | b
  · exact ⟨rfl, rfl, rfl, hpost⟩
  · exact ⟨rfl, rfl, rfl, hpost⟩

theorem Couples.bind_same (hagree : L.Agree u u') {guard : Transcript E R → E → Prop}
    {P : σ → Transcript E R → Prop} {Q : α → σ → Transcript E R → Prop}
    {D : ε → σ → Transcript E R → Prop} {f : α → Routine E R σ ε β}
    {K : β → σ → Transcript E R → β → σ → Transcript E R → Prop}
    (hm : Meets (recorded guard) P m Q D) (hplain : ∀ t e, guard t e → L.Plain e)
    (hF : ∀ e s t, D e s t → F e s t e s t)
    (hf : ∀ a, Couples L u u' (Twice (Q a)) (f a) (f a) K F) :
    Couples L u u' (Twice P) (m >>= f) (m >>= f) K F := by
  refine Couples.bind ((Couples.same hagree hm hplain).weaken (fun _ _ _ _ h => h)
    (fun _ _ _ _ _ _ h => h) ?_) fun a a' => Couples.given fun hsame => ?_
  · rintro e s t _ _ _ ⟨rfl, rfl, rfl, hD⟩
    exact hF _ _ _ hD
  · subst hsame
    exact hf a'

theorem Couples.bind_read_same {P : σ → Transcript E R → Prop} {f : σ → Routine E R σ ε β}
    {K : β → σ → Transcript E R → β → σ → Transcript E R → Prop}
    (hf : ∀ r, Couples L u u' (Twice fun s t => r = s ∧ P s t) (f r) (f r) K F) :
    Couples L u u' (Twice P) (Routine.read >>= f) (Routine.read >>= f) K F := by
  rintro s t _ _ ⟨rfl, rfl, hP⟩
  exact hf _ _ _ _ _ ⟨rfl, rfl, rfl, hP⟩

/-- Plain programs, in conversations that are only alike, give the same in both runs. -/
theorem Couples.run_same (hagree : L.Agree u u') {p : Program E R α} {allowed : E → Prop}
    {post : α → Prop} (hp : Within allowed post p) (hplain : ∀ e, allowed e → L.Plain e)
    (hP : ∀ s t s' t' more, P s t s' t' → P s (more ++ t) s' (more ++ t')) :
    Couples L u u' P (Routine.run p) (Routine.run p)
      (fun a s t a' s' t' => a' = a ∧ post a ∧ P s t s' t') F := by
  intro s t s' t' hPs
  have free : ∀ c, Reaches recording (p, t) c →
      Reaches (anything (R := R) allowed).toSemantics (p, ()) (c.1, ()) := fun c hc =>
    hc.project (fun _ => ()) (fun _ _ _ _ _ => trivial) fun _ _ _ _ => Or.inl trivial
  refine Coupled.bind (Q := fun a v a' v' => post a ∧ a = a' ∧ ∃ more, v = more ++ t ∧
    v' = more ++ t') ?_ ?_
  · intro halike a v a' v' hr hr' hu hu'
    have hrequests : ∀ e next w, Reaches recording (p, t) (.request e next, w) → L.Plain e :=
      fun e next w hreached => hplain e ((hp _ _ (free _ hreached)).2.1 e next rfl)
    obtain ⟨hends, hsame⟩ := Coupled.same hagree hrequests halike a v a' v' hr hr' hu hu'
    exact ⟨hends, (hp _ _ (free _ hr)).2.2 a rfl, hsame⟩
  · rintro a v a' v' ⟨hpost, rfl, more, rfl, rfl⟩
    exact Coupled.pure ⟨rfl, hpost, hP s t s' t' more hPs⟩

end Couples

end Routine

end PackageHarness.Interaction
