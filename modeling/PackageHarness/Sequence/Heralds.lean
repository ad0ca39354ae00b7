/-
# PackageHarness.Sequence.Heralds — events that happen once because what announces them does.

A history is a list, the latest entry first. An event is announced if a herald came before it and no
other event has come in between. Where every event is announced and there is one herald, there is
one event. Histories that were written one after the other can be joined: an announcement is not
lost when something older is put behind it.

Nothing in this module mentions a particular program.
-/
import Mathlib.Data.List.Infix

namespace PackageHarness.Sequence

variable {α : Type*} {herald event : α → Prop} {history older : List α}

/-- No two entries of the history are of this kind. -/
def AtMostOnce (kind : α → Prop) (history : List α) : Prop :=
  history.Pairwise fun later earlier => kind later → ¬ kind earlier

/-- A herald has come, and no event since. -/
def Announced (herald event : α → Prop) (history : List α) : Prop :=
  ∃ since announcement before, history = since ++ announcement :: before ∧ herald announcement ∧
    ∀ entry ∈ since, ¬ event entry

/-- Every event of the history has been announced. -/
def Heralded (herald event : α → Prop) (history : List α) : Prop :=
  ∀ entry earlier, entry :: earlier <:+ history → event entry → Announced herald event earlier

theorem atMostOnce_cons {kind : α → Prop} {entry : α} :
    AtMostOnce kind (entry :: history) ↔
      (kind entry → ∀ earlier ∈ history, ¬ kind earlier) ∧ AtMostOnce kind history := by
  rw [AtMostOnce, List.pairwise_cons]
  refine and_congr_left fun _ => ?_
  exact ⟨fun h hentry earlier hmem => h earlier hmem hentry,
    fun h earlier hmem hentry => h hentry earlier hmem⟩

/-- Entries of another kind can be put in front. -/
theorem AtMostOnce.append {kind : α → Prop} {newer : List α} (h : AtMostOnce kind history)
    (hnewer : ∀ entry ∈ newer, ¬ kind entry) : AtMostOnce kind (newer ++ history) := by
  induction newer with
  | nil => exact h
  | cons entry newer ih =>
      refine atMostOnce_cons.mpr ⟨fun hentry => ?_, ih fun other hother => ?_⟩
      · exact absurd hentry (hnewer entry (List.mem_cons_self ..))
      · exact hnewer other (List.mem_cons_of_mem _ hother)

theorem Announced.mem (h : Announced herald event history) : ∃ entry ∈ history, herald entry := by
  obtain ⟨since, announcement, before, rfl, hherald, _⟩ := h
  exact ⟨announcement, List.mem_append_right _ (List.mem_cons_self ..), hherald⟩

theorem Announced.append (h : Announced herald event history) (older : List α) :
    Announced herald event (history ++ older) := by
  obtain ⟨since, announcement, before, rfl, hherald, hquiet⟩ := h
  exact ⟨since, announcement, before ++ older, by simp, hherald, hquiet⟩

theorem Heralded.of_cons {entry : α} (h : Heralded herald event (entry :: history)) :
    Heralded herald event history :=
  fun later earlier hsuffix => h later earlier (hsuffix.trans (List.suffix_cons ..))

/-- An entry of a joined history belongs to one of its parts. -/
theorem suffix_append {entry : α} {earlier : List α} (h : entry :: earlier <:+ history ++ older) :
    (∃ before, entry :: before <:+ history ∧ earlier = before ++ older) ∨
      entry :: earlier <:+ older := by
  induction history with
  | nil => exact Or.inr h
  | cons first rest ih =>
      rcases List.suffix_cons_iff.mp h with heq | hlater
      · obtain ⟨rfl, rfl⟩ := List.cons.inj heq
        exact Or.inl ⟨rest, List.suffix_refl _, rfl⟩
      · refine (ih hlater).imp_left ?_
        rintro ⟨before, hsuffix, hearlier⟩
        exact ⟨before, hsuffix.trans (List.suffix_cons ..), hearlier⟩

theorem suffix_flatMap {β : Type*} {parts : List β} {f : β → List α} {entry : α}
    {earlier : List α} (h : entry :: earlier <:+ parts.flatMap f) :
    ∃ part ∈ parts, ∃ before older, entry :: before <:+ f part ∧ earlier = before ++ older := by
  induction parts with
  | nil => exact absurd h.length_le (by simp)
  | cons part parts ih =>
      rw [List.flatMap_cons] at h
      rcases suffix_append h with ⟨before, hsuffix, hearlier⟩ | hlater
      · exact ⟨part, List.mem_cons_self .., before, _, hsuffix, hearlier⟩
      · obtain ⟨other, hother, hrest⟩ := ih hlater
        exact ⟨other, List.mem_cons_of_mem _ hother, hrest⟩

/-- If everything is announced in each part, it is announced in the whole. -/
theorem Heralded.flatMap {β : Type*} {parts : List β} {f : β → List α}
    (h : ∀ part ∈ parts, Heralded herald event (f part)) :
    Heralded herald event (parts.flatMap f) := by
  intro entry earlier hsuffix hevent
  obtain ⟨part, hpart, before, older, hwithin, rfl⟩ := suffix_flatMap hsuffix
  exact (h part hpart entry before hwithin hevent).append older

/-- One herald announces one event. -/
theorem Heralded.atMostOnce (h : Heralded herald event history)
    (honce : AtMostOnce herald history) : AtMostOnce event history := by
  induction history with
  | nil => exact List.Pairwise.nil
  | cons entry history ih =>
      obtain ⟨hfirst, hrest⟩ := atMostOnce_cons.mp honce
      refine atMostOnce_cons.mpr ⟨fun hevent => ?_, ih h.of_cons hrest⟩
      obtain ⟨since, announcement, before, rfl, hherald, hquiet⟩ :=
        h entry history (List.suffix_refl _) hevent
      intro other hother hagain
      -- an event before the announcement has a herald before it, and that is a second one
      have hbehind : ∃ earlier, other :: earlier <:+ announcement :: before := by
        rcases List.mem_append.mp hother with hsince | hbefore
        · exact absurd hagain (hquiet other hsince)
        · obtain ⟨between, earlier, hsplit⟩ := List.append_of_mem hbefore
          exact ⟨earlier, between, hsplit.symm⟩
      obtain ⟨earlier, hsuffix⟩ := hbehind
      have hwhole : other :: earlier <:+ entry :: (since ++ announcement :: before) :=
        (hsuffix.trans (List.suffix_append ..)).trans (List.suffix_cons ..)
      obtain ⟨second, hsecond, hheralds⟩ := (h other earlier hwhole hagain).mem
      have hpast : second ∈ before := by
        rcases List.suffix_cons_iff.mp hsuffix with heq | hbefore
        · exact (List.cons.inj heq).2 ▸ hsecond
        · exact hbefore.subset (List.mem_cons_of_mem _ hsecond)
      have hunique := (atMostOnce_cons.mp (List.Pairwise.sublist
        (List.sublist_append_right since (announcement :: before)) hrest)).1
      exact hunique hherald second hpast hheralds

end PackageHarness.Sequence
