/-
# PackageHarness.System.History — everything that the processes of a life have said.

A life is looked back at as one history of remarks, across crashes and restarts. Each remark was
licensed when it was made. What a history has in common with the store is `Orderly`: a run that was
created has a record, no run was created twice, and an execution finds its record as it was created.
-/
import PackageHarness.Conduct.Errands
import PackageHarness.Sequence.Heralds
import PackageHarness.System.Postponement

namespace PackageHarness

open Interaction Relation Sequence

/-! ## Remarks -/

/-- Something that the worker has said, and the answer that it was alive to hear. -/
structure Remark where
  request : WorkerRequest
  answer : Option request.Answer

namespace Remark

def Creates (run : RunId) (remark : Remark) : Prop :=
  ∃ record : RunRecord, record.id = run ∧ remark = ⟨.create record, some (.ok ())⟩

def Starts (run : RunId) (remark : Remark) : Prop :=
  ∃ asked, remark.request = .runner run asked ∧ asked.starts

def Updates (run : RunId) (remark : Remark) : Prop :=
  ∃ asked, remark.request = .runner run asked ∧ asked.updates

/-- The remark is made on behalf of the run, or prepares its execution. -/
def Concerns (run : RunId) (remark : Remark) : Prop :=
  remark.request.Prepares ∨ ∃ asked, remark.request = .runner run asked

end Remark

def Chronicle.remarks (t : Chronicle) : List Remark := t.map fun x => ⟨x.request, some x.answer⟩

/-- The request that waits for its answer. -/
def Remark.unanswered (pending : Option WorkerRequest) : List Remark :=
  (pending.map fun request => (⟨request, none⟩ : Remark)).toList

theorem Remark.not_creates_of_unanswered {pending : Option WorkerRequest} {remark : Remark}
    (h : remark ∈ Remark.unanswered pending) (run : RunId) : ¬ remark.Creates run := by
  rintro ⟨record, _, rfl⟩
  cases pending with
  | none => exact absurd h List.not_mem_nil
  | some request =>
      have hanswer := congrArg (fun remark : Remark => remark.answer.isSome)
        (List.mem_singleton.mp h)
      cases hanswer

def Episode.remarks (episode : Episode) : List Remark :=
  Remark.unanswered episode.pending ++ episode.chronicle.remarks

namespace Life

/-- What all processes have said, the latest first. -/
def remarks (life : Life) : List Remark := life.episodes.flatMap Episode.remarks

/-- The same without the request that is still open. -/
def said (life : Life) : List Remark :=
  life.chronicle.remarks ++ life.past.flatMap Episode.remarks

theorem remarks_eq (life : Life) :
    life.remarks = Remark.unanswered life.worker.pending ++ life.said := by
  unfold remarks said episodes
  rw [List.flatMap_cons, Episode.remarks, List.append_assoc]
  rfl

end Life

/-! ## Licenses -/

namespace Chronicle

variable {t : Chronicle} {record : RunRecord}

/-- An entry of the remarks is an exchange. -/
theorem suffix_remarks {remark : Remark} {earlier : List Remark}
    (h : remark :: earlier <:+ t.remarks) :
    ∃ x before, x :: before <:+ t ∧ remark = ⟨x.request, some x.answer⟩ ∧
      earlier = Chronicle.remarks before := by
  induction t with
  | nil => exact absurd h.length_le (by simp [remarks])
  | cons first rest ih =>
      rcases List.suffix_cons_iff.mp h with heq | hlater
      · obtain ⟨rfl, rfl⟩ := List.cons.inj heq
        exact ⟨first, rest, List.suffix_refl _, rfl, rfl⟩
      · obtain ⟨x, before, hsuffix, hrest⟩ := ih hlater
        exact ⟨x, before, hsuffix.trans (List.suffix_cons ..), hrest⟩

theorem remarks_append (t before : Chronicle) :
    Chronicle.remarks (t ++ before) = t.remarks ++ before.remarks := List.map_append

end Chronicle

namespace Episode

variable {ext : Externals} {episode : Episode}

/-- Whatever a process says is licensed by its conversation up to then. -/
theorem Spoken.licensed (h : episode.Spoken ext) {remark : Remark} {earlier : List Remark}
    (hsuffix : remark :: earlier <:+ episode.remarks) :
    ∃ t : Chronicle, t <:+ episode.chronicle ∧ earlier = t.remarks ∧
      t.Licensed episode.deployment remark.request := by
  obtain ⟨worker, hreaches, hpending⟩ := h
  rcases suffix_append hsuffix with ⟨before, hopen, rfl⟩ | hanswered
  · cases hrequest : episode.pending with
    | none =>
        rw [hrequest] at hopen
        exact absurd hopen.length_le (by simp [Remark.unanswered])
    | some request =>
        rw [hrequest] at hopen
        obtain ⟨rfl, rfl⟩ : remark = ⟨request, none⟩ ∧ before = [] := by
          rcases List.suffix_cons_iff.mp hopen with heq | hnil
          · exact List.cons.inj heq
          · exact absurd hnil.length_le (by simp)
        obtain ⟨next, hworker⟩ := Program.pending_eq_some (hpending.symm.trans hrequest)
        exact ⟨episode.chronicle, List.suffix_refl _, rfl,
          (Worker.run_licensed _ _ hreaches).2.1 request next hworker⟩
  · obtain ⟨x, before, hx, rfl, rfl⟩ := Chronicle.suffix_remarks hanswered
    exact ⟨before, (List.suffix_cons ..).trans hx, rfl, Worker.run_licensed.guarded hreaches hx⟩

/-- What has been created was claimed right before. -/
theorem Spoken.claimed (h : episode.Spoken ext) {record : RunRecord} {before : Chronicle}
    {answer : Except StoreError Unit}
    (hsuffix : ⟨.create record, answer⟩ :: before <:+ episode.chronicle) :
    ∃ job time, record = .claimed job.request job.claimToken time ∧
      ⟨.claim, .ok (.claimed job)⟩ ∈ before := by
  obtain ⟨worker, hreaches, _⟩ := h
  have hlicensed : before.Licensed episode.deployment (.create record) :=
    Worker.run_licensed.guarded hreaches hsuffix
  obtain ⟨job, time, earlier, hclaimed, rfl⟩ := hlicensed
  exact ⟨job, time, hclaimed, List.mem_cons_of_mem _ (List.mem_cons_self ..)⟩

end Episode

namespace Life

variable {ext : Externals} {company : Company} {life after : Life}

/-- Every process, also a former one, has said what its program makes it say. -/
theorem Reachable.spoken_episodes (h : Reachable ext company life) :
    ∀ episode ∈ life.episodes, episode.Spoken ext := by
  have hcurrent : ∀ {life}, Reachable ext company life → life.episode.Spoken ext :=
    fun hlife => ⟨_, hlife.spoken, rfl⟩
  suffices hpast : ∀ episode ∈ life.past, episode.Spoken ext by
    intro episode hepisode
    rcases List.mem_cons.mp hepisode with rfl | hmem
    · exact hcurrent h
    · exact hpast episode hmem
  obtain ⟨deployment, hruns⟩ := h
  induction hruns with
  | refl => exact fun _ hmem => absurd hmem List.not_mem_nil
  | @tail middle after hmiddle hstep ih =>
      cases hstep with
      | restart =>
          intro episode hepisode
          rcases List.mem_cons.mp hepisode with rfl | hmem
          · exact hcurrent ⟨deployment, hmiddle⟩
          · exact ih episode hmem
      | answer => exact ih
      | drift => exact ih
      | unroll => exact ih
      | outside => exact ih

end Life

/-! ## Records are never lost -/

namespace Ledger

variable {ledger after : Ledger}

/-- Every run that has a record keeps one. -/
def Keeps (ledger after : Ledger) : Prop :=
  ∀ run, (ledger.store run).isSome → (after.store run).isSome

theorem Keeps.refl (ledger : Ledger) : ledger.Keeps ledger := fun _ h => h

theorem keeps_write (ledger : Ledger) (record : RunRecord) : ledger.Keeps (ledger.write record) := by
  intro run hrun
  by_cases hid : run = record.id
  · subst hid
    exact Option.isSome_iff_exists.mpr ⟨_, RunStore.write_same ..⟩
  · exact (congrArg Option.isSome (RunStore.write_of_ne ledger.store record hid)).trans hrun

theorem Operated.keeps (h : ledger.Operated after) : ledger.Keeps after := by
  obtain ⟨record, changed, _, _, _, rfl | rfl⟩ := h.cases
  · exact .refl _
  · exact keeps_write _ _

/-- A creation that succeeds finds no record and leaves one. -/
theorem Answers.created {record : RunRecord} {u : Unit}
    (h : ledger.Answers (.create record) (.ok u) after) :
    ledger.store record.id = none ∧ after = ledger.write record := by
  obtain ⟨hcreates, hpreflight⟩ := h
  unfold RunStore.Creates at hcreates
  split at hcreates
  · next hnew =>
      refine ⟨hnew, ?_⟩
      rcases saves_cases hcreates hpreflight with ⟨_, error, herror⟩ | hwritten
      · cases herror
      · exact hwritten
  · obtain ⟨_, error, herror⟩ := hcreates
    cases herror

/-- A creation may fail, and writes nothing where there is a record. -/
theorem Answers.create_cases {record : RunRecord} {answer : Except StoreError Unit}
    (h : ledger.Answers (.create record) answer after) :
    after.store = ledger.store ∨
      ledger.store record.id = none ∧ after.store = ledger.store.write record := by
  obtain ⟨hcreates, hpreflight⟩ := h
  unfold RunStore.Creates at hcreates
  split at hcreates
  · next hnew =>
      rcases saves_cases hcreates hpreflight with ⟨rfl, _⟩ | rfl
      · exact Or.inl rfl
      · exact Or.inr ⟨hnew, rfl⟩
  · exact Or.inl hcreates.1

/-- What a request does to the store: nothing, or it writes one record. -/
theorem Answers.store_cases {request : WorkerRequest} {answer : request.Answer}
    (h : ledger.Answers request answer after) :
    after.store = ledger.store ∨
      (∃ run site record, request = .runner run (.save site record) ∧
        after.store = ledger.store.write record) ∨
      ∃ record, request = .create record ∧ ledger.store record.id = none ∧
        after.store = ledger.store.write record := by
  cases request with
  | runner run asked =>
      cases asked with
      | save site record =>
          rcases saves_cases h.1 h.2 with ⟨rfl, _⟩ | rfl
          · exact Or.inl rfl
          · exact Or.inr (Or.inl ⟨run, site, record, rfl, rfl⟩)
      | get id => exact Or.inl (congrArg Ledger.store h.1)
      | pm call =>
          cases call with
          | listPackages purpose =>
              cases purpose with
              | preflight =>
                  rcases answer with error | packages
                  · exact Or.inl (congrArg Ledger.store h)
                  · cases h
                    exact Or.inl rfl
              | _ => exact Or.inl (congrArg Ledger.store h)
          | _ => exact Or.inl (congrArg Ledger.store h)
      | _ => exact Or.inl (congrArg Ledger.store h)
  | create record =>
      exact h.create_cases.imp_right fun hwritten => Or.inr ⟨record, rfl, hwritten⟩
  | loadAll => exact Or.inl (congrArg Ledger.store h.1)
  | _ => exact Or.inl (congrArg Ledger.store h)

theorem Answers.keeps {request : WorkerRequest} {answer : request.Answer}
    (h : ledger.Answers request answer after) : ledger.Keeps after := by
  intro run hrun
  rcases h.store_cases with hstore | ⟨_, _, record, _, hstore⟩ | ⟨record, _, _, hstore⟩
  · rwa [hstore]
  · rw [hstore]
    exact keeps_write ledger record run hrun
  · rw [hstore]
    exact keeps_write ledger record run hrun

theorem Answers.prepared {request : WorkerRequest} {answer : request.Answer}
    (h : ledger.Answers request answer after) (hprepares : request.Prepares) :
    after.store = ledger.store := by
  rcases h.store_cases with hstore | ⟨run, site, record, rfl, _⟩ | ⟨record, rfl, _⟩
  · exact hstore
  · exact hprepares.elim
  · exact hprepares.elim

end Ledger

/-- Recovery actions that happen outside the worker. -/
theorem World.Operates.operated {world after : World} (h : world.Operates after) :
    world.ledger.Operated after.ledger := by
  cases h with
  | accepted hoperates => exact ⟨_, _, _, hoperates⟩
  | failed hoperates => exact ⟨_, _, _, hoperates⟩

/-! ## History and store -/

/-- An execution that follows the creation of a record finds that record. -/
def Chronicle.Finds (t : Chronicle) : Prop :=
  ∀ run found before record, ⟨.runner run (.get run), .ok (some found)⟩ :: before <:+ t →
    Chronicle.Created before record → record.id = run → found = record.persisted

namespace Episode

variable {ext : Externals} {episode : Episode} {run : RunId} {before : Chronicle} {u : Trace}
  {record : RunRecord}

/-- An execution finds its record as it was created. -/
theorem Spoken.genuine (h : episode.Spoken ext) (hfinds : episode.chronicle.Finds)
    (hsuffix : u.onBehalf run ++ before <:+ episode.chronicle) (hcreated : before.Created record)
    (hid : record.id = run) : u.Genuine run := by
  rintro since found rfl _
  have hbefore : ⟨.runner run (.get run), .ok (some found)⟩ :: before <:+ episode.chronicle := by
    refine List.IsSuffix.trans ⟨Trace.onBehalf run since, ?_⟩ hsuffix
    rw [Trace.onBehalf_append, List.append_assoc]
    rfl
  rw [hfinds run found before record hbefore hcreated hid]
  obtain ⟨earlier, rest, hrest, _⟩ := hcreated
  have hcreation : ⟨.create record, .ok ()⟩ :: rest <:+ episode.chronicle := by
    refine List.IsSuffix.trans ?_ ((List.suffix_cons ..).trans hbefore)
    exact ⟨earlier, hrest.symm⟩
  obtain ⟨job, time, rfl, _⟩ := h.claimed hcreation
  exact ⟨rfl, rfl, rfl⟩

end Episode

namespace Life

variable {ext : Externals} {life after : Life}

/-- What the history of a life has in common with its store. -/
structure Orderly (life : Life) : Prop where
  known : ∀ run, (∃ remark ∈ life.said, remark.Creates run) → (life.world.ledger.store run).isSome
  once : ∀ run, AtMostOnce (Remark.Creates run) life.said
  untouched : ∀ record, life.chronicle.Created record →
    life.world.ledger.store record.id = some record.persisted
  finds : life.chronicle.Finds
  found : ∀ episode ∈ life.past, episode.chronicle.Finds

theorem Orderly.episodes (h : life.Orderly) : ∀ episode ∈ life.episodes, episode.chronicle.Finds := by
  intro episode hepisode
  rcases List.mem_cons.mp hepisode with rfl | hpast
  · exact h.finds
  · exact h.found episode hpast

/-- A record that has just been created is not on hold. -/
theorem Orderly.unheld (h : life.Orderly) (hlife : life.episode.Spoken ext) {record : RunRecord}
    (hcreated : life.chronicle.Created record) : life.world.ledger.Unheld record.id := by
  intro found hfound
  have huntouched := h.untouched record hcreated
  obtain ⟨since, before, hchronicle, _⟩ := hcreated
  obtain ⟨job, time, rfl, _⟩ := hlife.claimed ⟨since, hchronicle.symm⟩
  cases huntouched.symm.trans hfound
  rfl

/-- What happens outside the worker adds nothing to what was said. -/
theorem Orderly.moved (h : life.Orderly) {world : World}
    (hkeeps : life.world.ledger.Keeps world.ledger)
    (hspares : ∀ record, life.chronicle.Created record →
      world.ledger.store record.id = life.world.ledger.store record.id) :
    Orderly { life with world := world } where
  known := fun run hcreated => hkeeps run (h.known run hcreated)
  once := h.once
  untouched := fun record hcreated => (hspares record hcreated).trans (h.untouched record hcreated)
  finds := h.finds
  found := h.found

theorem Orderly.stirred (h : life.Orderly) {world : World} (hstirs : life.world.Stirs world) :
    Orderly { life with world := world } := by
  refine h.moved ?_ ?_
  · rw [hstirs.1]
    exact Ledger.Keeps.refl _
  · exact fun record _ => congrArg (fun ledger => ledger.store record.id) hstirs.1

/-- An answer to the worker. -/
theorem Orderly.answered {past : List Episode} {deployment : Deployment} {chronicle : Chronicle}
    {request : WorkerRequest} {next : request.Answer → Worker Unit} {world world' : World}
    {answer : request.Answer}
    (h : Orderly ⟨past, deployment, chronicle, .request request next, world⟩)
    (hanswers : world.ledger.Answers request answer world'.ledger) :
    Orderly ⟨past, deployment, ⟨request, answer⟩ :: chronicle, next answer, world'⟩ where
  known := by
    rintro run ⟨remark, hremark, hcreates⟩
    rcases List.mem_cons.mp hremark with rfl | hsaid
    · obtain ⟨record, rfl, hcreation⟩ := hcreates
      cases hcreation
      rw [hanswers.created.2]
      exact Option.isSome_iff_exists.mpr ⟨_, RunStore.write_same ..⟩
    · exact hanswers.keeps run (h.known run ⟨remark, hsaid, hcreates⟩)
  once := by
    intro run
    refine atMostOnce_cons.mpr ⟨?_, h.once run⟩
    rintro ⟨record, rfl, hcreation⟩ earlier hearlier hagain
    cases hcreation
    have hknown := h.known record.id ⟨earlier, hearlier, hagain⟩
    rw [show (⟨past, deployment, chronicle, .request _ next, world⟩ : Life).world = world from rfl,
      hanswers.created.1] at hknown
    cases hknown
  untouched := by
    intro record hcreated
    rcases hcreated.cases with hexchange | ⟨hprepares, hearlier⟩
    · cases hexchange
      rw [hanswers.created.2]
      exact RunStore.write_same ..
    · rw [hanswers.prepared hprepares]
      exact h.untouched record hearlier
  finds := by
    intro run found before record hsuffix hcreated hid
    rcases List.suffix_cons_iff.mp hsuffix with heq | hearlier
    · obtain ⟨hexchange, rfl⟩ := List.cons.inj heq
      cases hexchange
      subst hid
      have hfound := hanswers.2 (some found) rfl
      have huntouched := h.untouched record hcreated
      exact Option.some.inj (hfound.trans huntouched)
    · exact h.finds run found before record hearlier hcreated hid
  found := h.found

theorem Step.orderly (h : Step ext atomicOperators life after)
    (hspoken : life.episode.Spoken ext) (horderly : life.Orderly) : after.Orderly := by
  cases h with
  | answer hanswer => exact horderly.answered hanswer.1.1
  | drift hdrift => exact horderly.stirred hdrift
  | unroll =>
      exact ⟨horderly.known, horderly.once, horderly.untouched, horderly.finds, horderly.found⟩
  | outside hmoves =>
      rcases hmoves with hoperates | hstirs
      · refine horderly.moved hoperates.operated.keeps fun record hcreated => ?_
        exact hoperates.operated.store_of_unheld (horderly.unheld hspoken hcreated)
      · exact horderly.stirred hstirs
  | restart =>
      have hsaid : ∀ deployment, (life.restarted ext deployment).said =
          Remark.unanswered life.worker.pending ++ life.said := fun _ => life.remarks_eq
      refine ⟨fun run hcreated => ?_, fun run => ?_, ?_, ?_, horderly.episodes⟩
      · obtain ⟨remark, hremark, hcreates⟩ := hcreated
        rw [hsaid] at hremark
        rcases List.mem_append.mp hremark with hopen | hearlier
        · exact absurd hcreates (Remark.not_creates_of_unanswered hopen run)
        · exact horderly.known run ⟨remark, hearlier, hcreates⟩
      · rw [hsaid]
        exact (horderly.once run).append fun later hlater =>
          Remark.not_creates_of_unanswered hlater run
      · exact fun _ hcreated => absurd hcreated Chronicle.not_created_nil
      · exact fun _ _ _ _ hsuffix => absurd hsuffix.length_le (by simp [restarted])

theorem orderly_start {deployment : Deployment} : (start ext deployment).Orderly := by
  refine ⟨?_, fun run => List.Pairwise.nil, ?_, ?_, ?_⟩
  · rintro run ⟨remark, hremark, _⟩
    exact absurd hremark List.not_mem_nil
  · exact fun _ hcreated => absurd hcreated Chronicle.not_created_nil
  · exact fun _ _ _ _ hsuffix => absurd hsuffix.length_le (by simp [start])
  · exact fun _ hpast => absurd hpast List.not_mem_nil

end Life

end PackageHarness
