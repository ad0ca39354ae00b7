/-
# PackageHarness.Interaction.Transcript — what was asked and answered, as the world of a program.

`recording` are surroundings that answer anything and remember the conversation, the latest exchange
first. A statement about every transcript is a statement about a program in all surroundings at
once. `recorded` puts a guard on requests that may look at the conversation so far, and
`Safe.simulate` carries what was proved about one discipline to any other that it simulates.
-/
import PackageHarness.Interaction.Discipline
import PackageHarness.Interaction.Replay

namespace PackageHarness.Interaction

open Relation

/-! ## Simulation between disciplines -/

section Simulate

variable {E : Type} {R : E → Type} {W V α : Type}

/-- Every move of `D` can be followed by `D'`, whose guards imply those of `D`. -/
structure Simulates (D : Discipline E R W) (D' : Discipline E R V) (link : W → V → Prop) :
    Prop where
  guard : ∀ {w v e}, link w v → D'.guard v e → D.guard w e
  answer : ∀ {w v e r w'}, D.inv w → link w v → D'.guard v e → D.answer w e r w' →
    ∃ v', D'.answer v e r v' ∧ link w' v'
  drift : ∀ {w v e w'}, D.inv w → link w v → D.drift e w w' →
    ∃ v', (D'.drift e v v' ∨ v' = v) ∧ link w' v'

/-- Safety transfers along a simulation. -/
theorem Safe.simulate {D : Discipline E R W} {D' : Discipline E R V} {link : W → V → Prop}
    (hsim : Simulates D D' link) {Q : α → V → Prop} {p : Program E R α} {w : W} {v : V}
    (h : Safe D' Q p v) (hinv : D.inv w) (hlink : link w v) :
    Safe D (fun a w' => ∃ v', link w' v' ∧ Q a v') p w := by
  -- along the run of `D`, the run of `D'` that follows it
  have follows : ∀ c, Reaches D.toSemantics (p, w) c →
      D.inv c.2 ∧ ∃ v', link c.2 v' ∧ Reaches D'.toSemantics (p, v) (c.1, v') := by
    intro c hc
    induction hc with
    | refl => exact ⟨hinv, v, hlink, .refl⟩
    | @tail b c _ hstep ih =>
        obtain ⟨hi, v', hl, hr⟩ := ih
        have hobeys := h _ _ hr
        cases hstep with
        | answer ha =>
            have hg := hobeys.2.1 _ _ rfl
            obtain ⟨v'', ha', hl'⟩ := hsim.answer hi hl hg ha
            exact ⟨D.inv_answer hi (hsim.guard hl hg) ha, v'', hl', hr.tail (.answer ha')⟩
        | drift hd =>
            obtain ⟨v'', hd', hl'⟩ := hsim.drift hi hl hd
            refine ⟨D.inv_drift hi hd, v'', hl', ?_⟩
            rcases hd' with hd' | rfl
            · exact hr.tail (.drift hd')
            · exact hr
        | unroll => exact ⟨hi, v', hl, hr.tail .unroll⟩
  intro p' w' hr
  obtain ⟨hi, v', hl, hr'⟩ := follows _ hr
  obtain ⟨_, hguard, hend⟩ := h _ _ hr'
  exact ⟨hi, fun e next he => hsim.guard hl (hguard e next he), fun a ha => ⟨v', hl, hend a ha⟩⟩

end Simulate

/-! ## Transcripts -/

/-- One answered request. -/
structure Exchange (E : Type) (R : E → Type) where
  request : E
  answer : R request

/-- A conversation, the latest exchange first. -/
abbrev Transcript (E : Type) (R : E → Type) := List (Exchange E R)

section Recording

variable {E : Type} {R : E → Type} {α β : Type}

/-- Surroundings that may answer anything, and remember the conversation. -/
def recording : Semantics E R (Transcript E R) where
  answer := fun t e r after => after = ⟨e, r⟩ :: t
  drift := fun _ _ _ => False

/-- Some request of the conversation is one of these. -/
def Transcript.Mentions (t : Transcript E R) (asks : E → Prop) : Prop := ∃ x ∈ t, asks x.request

theorem Transcript.mentions_cons {t : Transcript E R} {x : Exchange E R} {asks : E → Prop} :
    Transcript.Mentions (x :: t) asks ↔ asks x.request ∨ t.Mentions asks := by
  simp [Transcript.Mentions]

variable {p : Program E R α} {t t' : Transcript E R}

/-- A conversation only grows. -/
theorem Reaches.suffix {c c' : Program E R α × Transcript E R} (h : Reaches recording c c') :
    c.2 <:+ c'.2 := by
  induction h with
  | refl => exact List.suffix_refl _
  | tail _ hstep ih =>
      cases hstep with
      | answer ha =>
          cases ha
          exact ih.trans (List.suffix_cons _ _)
      | drift hd => exact hd.elim
      | unroll => exact ih

/-- What a finished request was answered, and the run from there. -/
theorem Reaches.of_request {e : E} {next : R e → Program E R α} {a : α}
    (h : Reaches recording (.request e next, t) (.pure a, t')) :
    ∃ r, Reaches recording (next r, ⟨e, r⟩ :: t) (.pure a, t') := by
  rcases ReflTransGen.cases_head h with heq | ⟨c, hstep, hrest⟩
  · cases heq
  · cases hstep with
    | answer ha =>
        cases ha
        exact ⟨_, hrest⟩
    | drift hd => exact hd.elim

theorem Reaches.of_loop {σ : Type} {body : σ → Program E R (σ ⊕ β)} {s : σ}
    {next : β → Program E R α} {a : α}
    (h : Reaches recording (.loop body s next, t) (.pure a, t')) :
    Reaches recording ((body s).bind (.afterRound body next), t) (.pure a, t') := by
  rcases ReflTransGen.cases_head h with heq | ⟨c, hstep, hrest⟩
  · cases heq
  · cases hstep with
    | unroll => exact hrest

/-- A finished composite ran its first part to the end, and then its second. -/
theorem Reaches.of_bind_pure {f : α → Program E R β} {b : β}
    (h : Reaches recording (p.bind f, t) (.pure b, t')) :
    ∃ a t₁, Reaches recording (p, t) (.pure a, t₁) ∧
      Reaches recording (f a, t₁) (.pure b, t') := by
  rcases h.of_bind with ⟨p', hp', hr⟩ | hsplit
  · cases p' with
    | pure a => exact ⟨a, t', hr, hp' ▸ .refl⟩
    | request e next => cases hp'
    | loop body s next => cases hp'
  · exact hsplit

/-- The conversation decides the run: two finished runs along one conversation are the same. -/
theorem Reaches.unique {u t₁ t₂ : Transcript E R} {a b : α}
    (h : Reaches recording (p, t) (.pure a, t₁)) (h' : Reaches recording (p, t) (.pure b, t₂))
    (hs : t₁ <:+ u) (hs' : t₂ <:+ u) : a = b ∧ t₁ = t₂ := by
  suffices key : ∀ c, Reaches recording c (.pure a, t₁) → Reaches recording c (.pure b, t₂) →
      a = b ∧ t₁ = t₂ by
    exact key _ h h'
  intro c hc
  -- on the first run, from its end
  induction hc using ReflTransGen.head_induction_on with
  | refl =>
      intro h'
      cases h'.of_pure
      exact ⟨rfl, rfl⟩
  | head hstep hrest ih =>
      intro h'
      cases hstep with
      | @answer e next w r w' ha =>
          cases ha
          obtain ⟨r', hrest'⟩ := h'.of_request
          -- both answers are the exchange of the same place in the conversation
          have hsame : (⟨e, r⟩ :: w : Transcript E R) = ⟨e, r'⟩ :: w := by
            have hlast := (Reaches.suffix hrest).trans hs
            have hlast' := hrest'.suffix.trans hs'
            exact (List.suffix_of_suffix_length_le hlast hlast' (by simp)).eq_of_length (by simp)
          cases hsame
          exact ih hrest'
      | drift hd => exact hd.elim
      | unroll => exact ih h'.of_loop

/-- Surroundings that answer each request always alike, and remember the conversation. -/
def answering (reply : (e : E) → R e) : Script E R (Transcript E R) :=
  fun t e => some (reply e, ⟨e, reply e⟩ :: t)

theorem answering_admitted (reply : (e : E) → R e) : (answering reply).Admitted recording := by
  intro t e r t' h
  cases h
  exact ⟨t, .refl, rfl⟩

/-- What such surroundings add to the conversation. -/
theorem mem_replay_answering {reply : (e : E) → R e} (fuel : Nat)
    (c : Program E R α × Transcript E R) {x : Exchange E R}
    (hx : x ∈ (Program.replay (answering reply) fuel c).2) :
    x ∈ c.2 ∨ x = ⟨x.request, reply x.request⟩ := by
  induction fuel generalizing c with
  | zero => exact Or.inl hx
  | succ fuel ih =>
      obtain ⟨p, t⟩ := c
      cases p with
      | pure a => exact Or.inl hx
      | request e next =>
          rcases ih _ hx with hmem | hreply
          · rcases List.mem_cons.mp hmem with rfl | hearlier
            · exact Or.inr rfl
            · exact Or.inl hearlier
          · exact Or.inr hreply
      | loop body s next => exact ih ((body s).bind (.afterRound body next), t) hx

/-! ## Any surroundings, with a memory -/

/-- The surroundings `S`, with the conversation kept next to their world. -/
def chronicled {W : Type} (S : Semantics E R W) : Semantics E R (W × Transcript E R) where
  answer := fun c e r after => S.answer c.1 e r after.1 ∧ after.2 = ⟨e, r⟩ :: c.2
  drift := fun e c after => S.drift e c.1 after.1 ∧ after.2 = c.2

section Chronicled

variable {W : Type} {S : Semantics E R W}

/-- Whatever the surroundings are, the program has a conversation with them. -/
theorem Reaches.recorded {c c' : Program E R α × W × Transcript E R}
    (h : Reaches (chronicled S) c c') : Reaches recording (c.1, c.2.2) (c'.1, c'.2.2) := by
  refine Reaches.project Prod.snd ?_ ?_ h
  · exact fun _ _ _ _ hanswer => hanswer.2
  · exact fun _ _ _ hdrift => Or.inr hdrift.2

/-- Keeping the conversation does not restrict the surroundings. -/
theorem Step.chronicled {c c' : Program E R α × W} (h : Step S c c') (t : Transcript E R) :
    ∃ t', Step (Interaction.chronicled S) (c.1, c.2, t) (c'.1, c'.2, t') := by
  cases h with
  | answer hr => exact ⟨_, .answer ⟨hr, rfl⟩⟩
  | drift hd => exact ⟨t, .drift ⟨hd, rfl⟩⟩
  | unroll => exact ⟨t, .unroll⟩

/-- The script, with the conversation kept. -/
def Script.chronicled (script : Script E R W) : Script E R (W × Transcript E R) :=
  fun c e => (script c.1 e).map fun answer => (answer.1, answer.2, ⟨e, answer.1⟩ :: c.2)

theorem Script.Admitted.chronicled {script : Script E R W} (h : script.Admitted S) :
    script.chronicled.Admitted (Interaction.chronicled S) := by
  intro c e r c' hscript
  obtain ⟨w, t⟩ := c
  obtain ⟨w', t'⟩ := c'
  obtain ⟨⟨r₁, w₁⟩, hanswer, heq⟩ := Option.map_eq_some_iff.mp hscript
  cases heq
  obtain ⟨w₂, hdrifts, hr⟩ := h w e r₁ w₁ hanswer
  exact ⟨(w₂, t), hdrifts.lift (fun w => (w, t)) fun _ _ hd => ⟨hd, rfl⟩, hr, rfl⟩

end Chronicled

/-! ## Guards that look back -/

/-- Surroundings that remember, with a guard that looks at the conversation so far. -/
def recorded (guard : Transcript E R → E → Prop) : Discipline E R (Transcript E R) where
  toSemantics := recording
  guard := guard
  inv := fun _ => True
  inv_answer := fun _ _ _ => trivial
  inv_drift := fun _ _ => trivial

variable {guard : Transcript E R → E → Prop}

theorem recorded_still {e : E} : (recorded (R := R) guard).Still e := fun _ _ h => h.elim

/-- One exchange. -/
theorem Safe.exchange {Q : α → Transcript E R → Prop} {e : E} {next : R e → Program E R α}
    (hguard : guard t e) (hnext : ∀ r, Safe (recorded guard) Q (next r) (⟨e, r⟩ :: t)) :
    Safe (recorded guard) Q (.request e next) t := by
  refine Safe.request_still recorded_still trivial hguard ?_
  intro r after hanswer _
  cases hanswer
  exact hnext r

/-- The conversation of a safe program consists of guarded requests. -/
theorem Safe.guarded {Q : α → Transcript E R → Prop} {c : Program E R α × Transcript E R}
    (h : Safe (recorded guard) Q p []) (hr : Reaches recording (p, []) c) {x : Exchange E R}
    {u : Transcript E R} (hu : x :: u <:+ c.2) : guard u x.request := by
  induction hr with
  | refl => exact absurd (List.eq_nil_of_suffix_nil hu) (by simp)
  | @tail b c hreach hstep ih =>
      cases hstep with
      | @answer e next w r w' ha =>
          cases ha
          rcases List.suffix_cons_iff.mp hu with heq | hearlier
          · cases heq
            exact (h _ _ hreach).2.1 e next rfl
          · exact ih hearlier
      | drift hd => exact hd.elim
      | unroll => exact ih hu

/-- What a safe program ends with. -/
theorem Safe.ends {Q : α → Transcript E R → Prop} {a : α} (h : Safe (recorded guard) Q p t)
    (hr : Reaches recording (p, t) (.pure a, t')) : Q a t' :=
  (h.reaches hr).post

end Recording

namespace Routine

variable {E : Type} {R : E → Type} {σ ε α : Type} {guard : Transcript E R → E → Prop}
  {P : σ → Transcript E R → Prop} {F : ε → σ → Transcript E R → Prop}

/-- One request of a routine: the conversation is one exchange longer, and what held before it is
still known of the rest. -/
theorem Meets.ask {e : E} {Q : R e → σ → Transcript E R → Prop}
    (hguard : ∀ s t, P s t → guard t e)
    (hQ : ∀ r s t, P s t → Q r s (⟨e, r⟩ :: t)) :
    Meets (recorded guard) P (.run (Program.perform e)) Q F := by
  refine Meets.run ?_
  intro s t _ hP
  exact Safe.exchange (hguard s t hP) fun r => Safe.pure trivial (hQ r s t hP)

end Routine

end PackageHarness.Interaction
