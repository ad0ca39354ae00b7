/-
# PackageHarness.Storage.Simulation — the file store does what the atomic one does.

Each step of a call is followed by the durable store: a write takes effect when its file gets the
name of the run's file, becomes durable when some call syncs the directory, and a read takes its
value when it opens the file. The other calls notice no more than `Spares` and `Evolves` allow.
-/
import Mathlib.Data.List.Nodup
import PackageHarness.Storage.Progress

namespace PackageHarness

open Interaction Files FileRunStore

section Simulation

variable {C β : Type} {store : FileRunStore} {format : RecordFormat β} {v v' : Volume String β}

/-! ## What others do to a call -/

theorem Writing.spared {record : RunRecord} {createOnly : Bool}
    {rest : FileIo β (Except StoreError Unit)} {own : Option Resource}
    {standing standing' : Standing C}
    (h : Writing store format v record createOnly rest own standing)
    (hspares : Spares own v v') (hevolves : standing.Evolves standing') :
    Writing store format v' record createOnly rest own standing' := by
  cases h with
  | begun =>
      cases hevolves
      exact .begun
  | creating hbytes =>
      cases hevolves
      exact .creating hbytes
  | writing hbytes htemporary hnamed hfile =>
      cases hevolves
      rw [← hspares.file _ rfl] at hfile
      exact .writing hbytes htemporary (hspares.temporary _ _ rfl htemporary hnamed) hfile
  | syncing hbytes htemporary hnamed hfile =>
      cases hevolves
      rw [← hspares.file _ rfl] at hfile
      exact .syncing hbytes htemporary (hspares.temporary _ _ rfl htemporary hnamed) hfile
  | persisting hbytes htemporary hnamed hfile =>
      cases hevolves
      rw [← hspares.file _ rfl] at hfile
      exact .persisting hbytes htemporary (hspares.temporary _ _ rfl htemporary hnamed) hfile
  | @givingUp _ file _ _ htemporary hnamed hfile hanswer =>
      refine .givingUp htemporary (hspares.temporary _ _ rfl htemporary hnamed) ?_
        (hevolves.justifies hanswer)
      have hsame := hspares.file file rfl
      rw [List.getElem?_eq_getElem hfile] at hsame
      exact (List.getElem?_eq_some_iff.mp hsame).1
  | rooting =>
      cases hevolves <;> exact .rooting
  | finished hanswer => exact .finished (hevolves.justifies hanswer)

theorem Getting.spared {run : RunId} {rest : FileIo β (Except StoreError (Option RunRecord))}
    {standing standing' : Standing C} (h : Getting store format v run rest standing)
    (hspares : Spares none v v') (hevolves : standing.Evolves standing') :
    Getting store format v' run rest standing' := by
  cases h with
  | begun =>
      cases hevolves
      exact .begun
  | reading hfile =>
      cases hevolves
      exact .reading (hfile.mono hspares.frozen)
  | finished hanswer => exact .finished (hevolves.justifies hanswer)

theorem Collected.spared {stream : Nat} {records : List RunRecord} {ahead : List String}
    {there : RunId → Prop} {offers offers' : RunId → Written C → Prop}
    (h : Collected v stream records ahead there offers)
    (hspares : Spares (some (.stream stream)) v v')
    (hoffers : ∀ run w, offers run w → offers' run w) :
    Collected v' stream records ahead there offers' where
  shown := by
    rw [hspares.stream stream rfl]
    exact h.shown
  there run hrun := hspares.kept run (h.there run hrun)
  offered record hrecord := by
    obtain ⟨w, hw, hvalue⟩ := h.offered record hrecord
    exact ⟨w, hoffers _ _ hw, hvalue⟩

/-- What a listing's standing can become. -/
theorem Standing.Evolves.of_listing {there : RunId → Prop} {offers : RunId → Written C → Prop}
    {standing : Standing C} (h : Standing.Evolves (.listing there offers) standing) :
    ∃ offers', standing = .listing there offers' ∧ ∀ run w, offers run w → offers' run w := by
  cases h with
  | same => exact ⟨offers, rfl, fun _ _ h => h⟩
  | offered hoffers => exact ⟨_, rfl, hoffers⟩

theorem Loading.spared {rest : FileIo β (Except StoreError (List RunRecord))}
    {own : Option Resource} {standing standing' : Standing C}
    (h : Loading store format v rest own standing) (hspares : Spares own v v')
    (hevolves : standing.Evolves standing') : Loading store format v' rest own standing' := by
  cases h with
  | begun =>
      obtain ⟨_, rfl, _⟩ := hevolves.of_listing
      exact .begun
  | opening =>
      obtain ⟨_, rfl, _⟩ := hevolves.of_listing
      exact .opening
  | looping hcollected =>
      obtain ⟨_, rfl, hoffers⟩ := hevolves.of_listing
      exact .looping (hcollected.spared hspares hoffers)
  | round hcollected =>
      obtain ⟨_, rfl, hoffers⟩ := hevolves.of_listing
      exact .round (hcollected.spared hspares hoffers)
  | found hcollected hnamed =>
      obtain ⟨_, rfl, hoffers⟩ := hevolves.of_listing
      exact .found (hcollected.spared hspares hoffers) (hspares.kept _ hnamed)
  | reading hcollected hfile hid hw =>
      obtain ⟨_, rfl, hoffers⟩ := hevolves.of_listing
      exact .reading (hcollected.spared hspares hoffers) (hfile.mono hspares.frozen) hid
        (hoffers _ _ hw)
  | finished hanswer => exact .finished (hevolves.justifies hanswer)

theorem Parallels.spared {task : CallState StoreOperation.Answer (Request String β) Request.Answer}
    {own : Option Resource} {standing standing' : Standing C}
    (h : Parallels store format v task own standing) (hspares : Spares own v v')
    (hevolves : standing.Evolves standing') : Parallels store format v' task own standing' := by
  cases h with
  | unused =>
      cases hevolves
      exact .unused
  | writing hwriting hfits hid => exact .writing (hwriting.spared hspares hevolves) hfits hid
  | getting hgetting => exact .getting (hgetting.spared hspares hevolves)
  | loading hloading => exact .loading (hloading.spared hspares hevolves)
  | closed =>
      cases hevolves
      exact .closed

/-- What a call owns is there. -/
theorem Parallels.owns {task : CallState StoreOperation.Answer (Request String β) Request.Answer}
    {resource : Resource} {standing : Standing C}
    (h : Parallels store format v task (some resource) standing) : resource.Exists v := by
  cases h with
  | writing hwriting _ _ =>
      cases hwriting with
      | writing _ _ _ hfile | syncing _ _ _ hfile | persisting _ _ _ hfile =>
          exact (List.getElem?_eq_some_iff.mp hfile).1
      | givingUp _ _ hfile _ => exact hfile
  | loading hloading =>
      cases hloading with
      | looping h | round h | found h _ | reading h _ _ _ =>
          obtain ⟨s, hs, _⟩ := h.shown
          exact (List.getElem?_eq_some_iff.mp hs).1

/-- A call that has ended may be answered as it has ended. -/
theorem Parallels.justifies {op : StoreOperation} {answer : op.Answer} {own : Option Resource}
    {standing : Standing C}
    (h : Parallels store format v (.running op (.pure answer)) own standing) :
    standing.Justifies op answer := by
  generalize hrest : Program.pure answer = rest at h
  cases h with
  | writing hwriting _ _ =>
      cases hwriting with
      | @begun =>
          cases hbytes : format.toVecPretty _ with
          | error error =>
              -- a record that cannot be serialized ends the call at once
              rw [atomicWrite_of_error store format hbytes] at hrest
              cases hrest
              rfl
          | ok bytes =>
              rw [atomicWrite_of_ok store format hbytes] at hrest
              cases hrest
      | finished hanswer =>
          cases hrest
          exact hanswer
      | _ => cases hrest
  | getting hgetting =>
      cases hgetting with
      | finished hanswer =>
          cases hrest
          exact hanswer
      | _ => cases hrest
  | loading hloading =>
      cases hloading with
      | finished hanswer =>
          cases hrest
          exact hanswer
      | _ => cases hrest

/-! ## The steps of a call -/

/-- A step of a call that owned `own` and now owns `own'`, and how the durable store follows. -/
structure Follows [DecidableEq C] (format : RecordFormat β) (caller : C) (v v' : Volume String β)
    (own own' : Option Resource) (s s' : DurableStore C) : Prop where
  history : DurableStore.automaton.History s [] s'
  holds : Holds format v' s'
  evolves : ∀ other, other ≠ caller → (s.standing other).Evolves (s'.standing other)
  spares : ∀ {foreign}, Foreign v own foreign → Spares foreign v v'
  owns : ∀ {resource}, own' = some resource → own = own' ∨ ¬ resource.Exists v

/-- The answer behind a step of a program that waits for one. -/
theorem answered_of_step {α : Type} {p q : FileIo β α} {request : Request String β}
    {next : request.Answer → FileIo β α} (hp : p = .request request next)
    (h : Interaction.Step fileSystem (p, v) (q, v')) :
    ∃ answer, v.Answers Temporary request answer v' ∧ q = next answer := by
  subst hp
  cases h with
  | answer hanswer => exact ⟨_, hanswer, rfl⟩
  | drift hdrift => exact hdrift.elim

section Steps

variable [DecidableEq C] {caller : C} {s : DurableStore C}

/-- Steps that the durable store does not take part in. -/
theorem Follows.quiet {own own' : Option Resource} (hholds : Holds format v s)
    (hquiet : Preserves v v') (hspares : ∀ {foreign}, Foreign v own foreign → Spares foreign v v')
    (howns : ∀ {resource}, own' = some resource → own = own' ∨ ¬ resource.Exists v) :
    Follows format caller v v' own own' s s :=
  ⟨.start, hholds.quiet hquiet, fun _ _ => .same, hspares, howns⟩

/-- Steps that change nothing but the standing of the call. -/
theorem Follows.standing {own own' : Option Resource} {standing : Standing C}
    (hholds : Holds format v s) (hstep : s.Step none (s.set caller standing))
    (howns : ∀ {resource}, own' = some resource → own = own' ∨ ¬ resource.Exists v) :
    Follows format caller v v own own' s (s.set caller standing) where
  history := .of_step (e := none) hstep
  holds := ⟨hholds.settled, hholds.recent, hholds.tidy⟩
  evolves other hother := by
    rw [DurableStore.standing_set_of_ne s standing hother]
    exact .same
  spares _ := .refl _ _
  owns := howns

theorem Follows.idle {own own' : Option Resource} (hholds : Holds format v s)
    (howns : ∀ {resource}, own' = some resource → own = own' ∨ ¬ resource.Exists v) :
    Follows format caller v v own own' s s :=
  ⟨.start, hholds, fun _ _ => .same, fun _ => .refl _ _, howns⟩

theorem Writing.step {record : RunRecord} {createOnly : Bool}
    {rest rest' : FileIo β (Except StoreError Unit)} {own : Option Resource}
    (hholds : Holds format v s) (hfits : format.Fits record) (hid : record.id.value ≠ "")
    (h : Writing store format v record createOnly rest own (s.standing caller))
    (hstep : Interaction.Step fileSystem (rest, v) (rest', v')) :
    ∃ s' own', Follows format caller v v' own own' s s' ∧
      Writing store format v' record createOnly rest' own' (s'.standing caller) := by
  generalize hstanding : s.standing caller = standing at h
  cases h with
  | begun =>
      cases hbytes : format.toVecPretty record with
      | error error =>
          rw [atomicWrite_of_error store format hbytes] at hstep
          exact absurd hstep not_step_pure
      | ok bytes =>
          obtain ⟨answer, hanswer, rfl⟩ :=
            answered_of_step (atomicWrite_of_ok store format hbytes) hstep
          cases hanswer
          refine ⟨s, none, .idle hholds (by simp), ?_⟩
          rw [hstanding]
          cases answer with
          | error error => exact .finished rfl
          | ok _ => exact .creating hbytes
  | creating hbytes =>
      obtain ⟨answer, hanswer, rfl⟩ := answered_of_step rfl hstep
      cases answer with
      | error error =>
          cases hanswer
          refine ⟨s, none, .idle hholds (by simp), ?_⟩
          rw [hstanding]
          exact .finished rfl
      | ok created =>
          obtain ⟨temporary, file⟩ := created
          obtain ⟨htemporary, hfresh, rfl, blank, rfl⟩ := hanswer
          refine ⟨s, some (.file v.inodes.length), .quiet hholds (quiet_create htemporary blank)
            (spares_create htemporary hfresh blank) ?_, ?_⟩
          · intro resource hresource
            cases hresource
            exact Or.inr (Nat.lt_irrefl _)
          · rw [hstanding]
            exact .writing hbytes htemporary (Volume.names_create_same v temporary blank)
              (Volume.inodes_create_new v temporary blank)
  | @writing bytes blank temporary file hbytes htemporary hnamed hfile =>
      obtain ⟨answer, hanswer, rfl⟩ := answered_of_step rfl hstep
      cases answer with
      | error error =>
          obtain ⟨torn, rfl⟩ := hanswer
          refine ⟨s, some (.file file), .quiet hholds (quiet_put hfile rfl) (spares_put hfile rfl)
            fun _ => Or.inl rfl, ?_⟩
          rw [hstanding]
          exact .givingUp htemporary hnamed
            (List.getElem?_eq_some_iff.mp (Volume.inodes_put_same v hfile)).1 rfl
      | ok _ =>
          cases hanswer
          refine ⟨s, some (.file file), .quiet hholds (quiet_put hfile rfl) (spares_put hfile rfl)
            fun _ => Or.inl rfl, ?_⟩
          rw [hstanding]
          exact .syncing hbytes htemporary hnamed (Volume.inodes_put_same v hfile)
  | @syncing bytes temporary file hbytes htemporary hnamed hfile =>
      obtain ⟨answer, hanswer, rfl⟩ := answered_of_step rfl hstep
      cases answer with
      | error error =>
          obtain ⟨torn, rfl⟩ := hanswer
          refine ⟨s, some (.file file), .quiet hholds (quiet_put hfile rfl) (spares_put hfile rfl)
            fun _ => Or.inl rfl, ?_⟩
          rw [hstanding]
          exact .givingUp htemporary hnamed
            (List.getElem?_eq_some_iff.mp (Volume.inodes_put_same v hfile)).1 rfl
      | ok _ =>
          cases hanswer
          refine ⟨s, some (.file file), .quiet hholds (quiet_flush file) spares_flush
            fun _ => Or.inl rfl, ?_⟩
          rw [hstanding]
          exact .persisting hbytes htemporary hnamed (Volume.inodes_flush_same v hfile)
  | @persisting bytes temporary file hbytes htemporary hnamed hfile =>
      obtain ⟨answer, hanswer, rfl⟩ := answered_of_step rfl hstep
      have hexists : file < v.inodes.length := (List.getElem?_eq_some_iff.mp hfile).1
      have hcurrent := (hholds.current record.id).eq_none_iff
      cases answer with
      | error error =>
          obtain ⟨hexisted, rfl⟩ := hanswer
          by_cases hrefused : createOnly = true ∧ error.kind = .alreadyExists
          · -- the run's file was there
            obtain ⟨rfl, hkind⟩ := hrefused
            have hvalue : s.current record.id ≠ none := fun hnone =>
              hexisted rfl hkind (hcurrent.mpr hnone)
            refine ⟨_, some (.file file), .standing hholds (.refuse hstanding hvalue)
              fun _ => Or.inl rfl, ?_⟩
            rw [DurableStore.standing_set_same]
            refine .givingUp htemporary hnamed hexists ?_
            rw [persistError, hkind]
            exact ⟨rfl, rfl⟩
          · refine ⟨s, some (.file file), .idle hholds fun _ => Or.inl rfl, ?_⟩
            rw [hstanding]
            refine .givingUp htemporary hnamed hexists ?_
            have hother : (createOnly && error.kind == .alreadyExists) = false := by
              simpa using hrefused
            rw [persistError, hother]
            exact rfl
      | ok _ =>
          obtain ⟨hfree, rfl⟩ := hanswer
          have hfrozen : Frozen format v file record.persisted :=
            ⟨bytes, hfile, format.fromSlice_toVecPretty hfits hbytes⟩
          refine ⟨_, none, ⟨.of_step (e := none) (.apply hstanding
            fun hcreate => hcurrent.mp (hfree hcreate)), ?_, ?_, spares_rename htemporary hnamed,
            by simp⟩, ?_⟩
          · have hput := hholds.rename caller htemporary hnamed hfrozen hid
            exact ⟨hput.settled, hput.recent, hput.tidy⟩
          · intro other hother
            rw [DurableStore.standing_set_of_ne _ _ hother]
            exact Standing.evolves_offer _ _ _
          · rw [DurableStore.standing_set_same]
            exact .rooting
  | givingUp htemporary hnamed hfile hjustified =>
      obtain ⟨answer, hanswer, rfl⟩ := answered_of_step rfl hstep
      rcases hanswer with rfl | rfl
      · refine ⟨s, none, .idle hholds (by simp), ?_⟩
        rw [hstanding]
        exact .finished hjustified
      · refine ⟨s, none, .quiet hholds (quiet_link htemporary none)
          (spares_discard htemporary hnamed) (by simp), ?_⟩
        rw [hstanding]
        exact .finished hjustified
  | rooting =>
      obtain ⟨answer, hanswer, rfl⟩ := answered_of_step rfl hstep
      cases answer with
      | error error =>
          cases hanswer
          refine ⟨s, none, .idle hholds (by simp), ?_⟩
          rw [hstanding]
          exact .finished rfl
      | ok _ =>
          cases hanswer
          refine ⟨s.settle, none, ⟨.of_step (e := none) .settle, hholds.syncDirectory,
            fun other _ => Standing.evolves_settle _, fun _ => spares_syncDirectory, by simp⟩, ?_⟩
          have hsettled : s.settle.standing caller = .applied (.write record createOnly) true := by
            show (s.standing caller).settle = _
            rw [hstanding]
            rfl
          rw [hsettled]
          exact .finished rfl
  | finished hanswer => exact absurd hstep not_step_pure

/-- What a run's file is decoded to. -/
theorem decode_of_frozen {name : String} {file : Nat} {bytes : β} {record : RunRecord}
    (hfile : Frozen format v file record)
    (hbytes : (v.inodes[file]?).map Inode.content = some bytes) :
    store.decode format name bytes = .ok record := by
  obtain ⟨bytes', hinode, hrecord⟩ := hfile
  rw [hinode] at hbytes
  cases hbytes
  rw [decode, hrecord]
  rfl

theorem Getting.step {run : RunId} {rest rest' : FileIo β (Except StoreError (Option RunRecord))}
    (hholds : Holds format v s) (h : Getting store format v run rest (s.standing caller))
    (hstep : Interaction.Step fileSystem (rest, v) (rest', v')) :
    ∃ s', Follows format caller v v' none none s s' ∧
      Getting store format v' run rest' (s'.standing caller) := by
  generalize hstanding : s.standing caller = standing at h
  cases h with
  | begun =>
      obtain ⟨answer, hanswer, rfl⟩ := answered_of_step rfl hstep
      have hshows := hholds.current run
      -- the value is taken when the file is opened, or found to be missing
      have hlook : s.Step none (s.set caller (.found run (s.current run))) := .look hstanding
      cases answer with
      | error error =>
          obtain ⟨hmissing, rfl⟩ := hanswer
          by_cases hkind : error.kind = .notFound
          · refine ⟨_, .standing hholds hlook (by simp), ?_⟩
            rw [DurableStore.standing_set_same]
            refine .finished ?_
            rw [getError, if_pos hkind]
            exact ⟨_, rfl, by rw [hshows.eq_none_iff.mp (hmissing hkind)]; rfl⟩
          · refine ⟨s, .idle hholds (by simp), ?_⟩
            rw [hstanding]
            refine .finished ?_
            rw [getError, if_neg hkind]
            exact ⟨⟨_, rfl⟩, rfl⟩
      | ok file =>
          obtain ⟨hnamed, rfl⟩ := hanswer
          refine ⟨_, .standing hholds hlook (by simp), ?_⟩
          rw [DurableStore.standing_set_same]
          rw [hnamed] at hshows
          cases hcurrent : s.current run with
          | none =>
              rw [hcurrent] at hshows
              cases hshows
          | some w =>
              rw [hcurrent] at hshows
              cases hshows with
              | file hfile _ => exact .reading hfile
  | @reading file w hfile =>
      obtain ⟨answer, hanswer, rfl⟩ := answered_of_step rfl hstep
      cases answer with
      | error error =>
          obtain ⟨hkind, rfl⟩ := hanswer
          refine ⟨s, .idle hholds (by simp), ?_⟩
          rw [hstanding]
          refine .finished ?_
          rw [getError, if_neg hkind]
          exact ⟨⟨_, rfl⟩, rfl⟩
      | ok bytes =>
          obtain ⟨hbytes, rfl⟩ := hanswer
          refine ⟨s, .idle hholds (by simp), ?_⟩
          rw [hstanding]
          refine .finished ?_
          rw [decode_of_frozen hfile hbytes]
          exact ⟨some w, rfl, rfl⟩
  | finished hanswer => exact absurd hstep not_step_pure

omit [DecidableEq C] in
/-- One more entry has been shown. -/
theorem Collected.reveal {stream : Nat} {records : List RunRecord} {name : String}
    {there : RunId → Prop} {offers : RunId → Written C → Prop}
    (h : Collected v stream records [] there offers)
    (hfresh : ∀ s, v.streams[stream]? = some s → name ∉ s.shown) :
    Collected (v.reveal stream name) stream records
      (if extension name = some "json" then [name] else []) there offers where
  shown := by
    obtain ⟨shown, hstream, honce, hopening, hcollected⟩ := h.shown
    refine ⟨{ shown with shown := shown.shown ++ [name] }, by simp [Volume.reveal, hstream],
      List.nodup_append_comm.mp (List.nodup_cons.mpr ⟨hfresh shown hstream, honce⟩), hopening, ?_⟩
    rw [List.filter_append, hcollected, List.append_nil]
    by_cases hjson : extension name = some "json" <;> simp [hjson]
  there := h.there
  offered := h.offered

omit [DecidableEq C] in
/-- A complete collection is a listing. -/
theorem Collected.listed {stream : Nat} {records : List RunRecord} {there : RunId → Prop}
    {offers : RunId → Written C → Prop} (h : Collected v stream records [] there offers)
    (hend : ∀ s, v.streams[stream]? = some s →
      ∀ name, s.opening name → v.names name ≠ none → name ∈ s.shown) :
    Listed there offers (oldestFirst records) := by
  obtain ⟨shown, hstream, honce, hopening, hcollected⟩ := h.shown
  rw [List.append_nil] at hcollected
  have hperm : (oldestFirst records).Perm records := List.mergeSort_perm _ _
  refine ⟨?_, ?_, ?_, ?_⟩
  · -- names are shown once, and a run's id is read off its name
    have hnames : (records.map fun record => fileName record.id).Nodup := by
      rw [← hcollected]
      exact honce.filter _
    rw [(hperm.map RunRecord.id).nodup_iff]
    refine List.Nodup.of_map fileName ?_
    rw [List.map_map]
    exact hnames
  · have htrans : ∀ a b c : RunRecord, decide (a.createdAt ≤ b.createdAt) = true →
        decide (b.createdAt ≤ c.createdAt) = true → decide (a.createdAt ≤ c.createdAt) = true :=
      fun a b c hab hbc => decide_eq_true
        (Int.le_trans (of_decide_eq_true hab) (of_decide_eq_true hbc))
    have htotal : ∀ a b : RunRecord,
        (decide (a.createdAt ≤ b.createdAt) || decide (b.createdAt ≤ a.createdAt)) = true := by
      intro a b
      simpa using Int.le_total a.createdAt b.createdAt
    have hsorted : (oldestFirst records).Pairwise fun a b =>
        decide (a.createdAt ≤ b.createdAt) = true := List.pairwise_mergeSort htrans htotal records
    exact hsorted.imp fun hle => of_decide_eq_true hle
  · intro record hrecord
    exact h.offered record (hperm.mem_iff.mp hrecord)
  · intro run hrun
    obtain ⟨hnonempty, hopen⟩ := hopening run hrun
    have hshown := hend shown hstream (fileName run) hopen (h.there run hrun)
    have hmem : fileName run ∈ records.map fun record => fileName record.id := by
      rw [← hcollected, List.mem_filter]
      exact ⟨hshown, decide_eq_true (extension_fileName hnonempty)⟩
    obtain ⟨record, hrecord, heq⟩ := List.mem_map.mp hmem
    exact ⟨record, hperm.mem_iff.mpr hrecord, fileName_injective heq⟩

theorem Loading.step {rest rest' : FileIo β (Except StoreError (List RunRecord))}
    {own : Option Resource} (hholds : Holds format v s) (hoffering : s.Offering)
    (h : Loading store format v rest own (s.standing caller))
    (hstep : Interaction.Step fileSystem (rest, v) (rest', v')) :
    ∃ own', Follows format caller v v' own own' s s ∧
      Loading store format v' rest' own' (s.standing caller) := by
  generalize hstanding : s.standing caller = standing at h ⊢
  cases h with
  | begun =>
      obtain ⟨answer, hanswer, rfl⟩ := answered_of_step rfl hstep
      cases hanswer
      refine ⟨none, .idle hholds (by simp), ?_⟩
      cases answer with
      | error error => exact .finished ⟨⟨_, rfl⟩, rfl⟩
      | ok _ => exact .opening
  | @opening there offers =>
      obtain ⟨answer, hanswer, rfl⟩ := answered_of_step rfl hstep
      have hthere : ∀ run, there run → v.names (fileName run) ≠ none := fun run hrun hnone =>
        (hoffering caller there offers hstanding).2 run hrun
          ((hholds.current run).eq_none_iff.mp hnone)
      cases answer with
      | error error =>
          cases hanswer
          exact ⟨none, .idle hholds (by simp), .finished ⟨⟨_, rfl⟩, rfl⟩⟩
      | ok stream =>
          obtain ⟨rfl, rfl⟩ := hanswer
          refine ⟨some (.stream v.streams.length), .quiet hholds quiet_openDirectory
            spares_openDirectory ?_, .looping ⟨⟨⟨fun name => v.names name ≠ none, []⟩,
              by simp [Volume.openDirectory], List.nodup_nil, ?_, rfl⟩, hthere, by simp⟩⟩
          · intro resource hresource
            cases hresource
            exact Or.inr (Nat.lt_irrefl _)
          · exact fun run hrun => ⟨hholds.nonempty_of_named (hthere run hrun), hthere run hrun⟩
  | looping hcollected =>
      cases hstep with
      | unroll => exact ⟨_, .idle hholds fun _ => Or.inl rfl, .round hcollected⟩
  | @round stream records there offers hcollected =>
      obtain ⟨answer, hanswer, rfl⟩ := answered_of_step rfl hstep
      cases answer with
      | none =>
          obtain ⟨hend, rfl⟩ := hanswer
          exact ⟨none, .idle hholds (by simp),
            .finished ⟨there, offers, rfl, hcollected.listed hend⟩⟩
      | some entry =>
          cases entry with
          | error error =>
              cases hanswer
              exact ⟨none, .idle hholds (by simp), .finished ⟨⟨_, rfl⟩, rfl⟩⟩
          | ok name =>
              obtain ⟨hnamed, hfresh, rfl⟩ := hanswer
              refine ⟨some (.stream stream), .quiet hholds (quiet_reveal stream name)
                spares_reveal fun _ => Or.inl rfl, ?_⟩
              have hcollected := hcollected.reveal hfresh
              show Loading store format _ ((store.visit format records name).bind
                (afterEntry store format stream)) _ _
              by_cases hjson : extension name = some "json"
              · rcases hholds.named hnamed with ⟨run, _, rfl⟩ | htemporary
                · rw [if_pos hjson] at hcollected
                  rw [visit, if_neg (not_not.mpr hjson)]
                  exact .found hcollected hnamed
                · exact absurd hjson (extension_temporary htemporary)
              · rw [if_neg hjson] at hcollected
                rw [visit, if_pos hjson]
                exact .looping hcollected
  | @found stream records run there offers hcollected hnamed =>
      obtain ⟨answer, hanswer, rfl⟩ := answered_of_step rfl hstep
      cases answer with
      | error error =>
          obtain ⟨_, rfl⟩ := hanswer
          exact ⟨none, .idle hholds (by simp), .finished ⟨⟨_, rfl⟩, rfl⟩⟩
      | ok file =>
          obtain ⟨hfile, rfl⟩ := hanswer
          have hshows := hholds.current run
          rw [hfile] at hshows
          cases hcurrent : s.current run with
          | none =>
              rw [hcurrent] at hshows
              cases hshows
          | some w =>
              rw [hcurrent] at hshows
              cases hshows with
              | file hfrozen hid =>
                  have hoffered := (hoffering caller there offers hstanding).1 run w hcurrent
                  exact ⟨_, .idle hholds fun _ => Or.inl rfl,
                    .reading hcollected hfrozen hid hoffered⟩
  | @reading stream records run file w there offers hcollected hfile hid hw =>
      obtain ⟨answer, hanswer, rfl⟩ := answered_of_step rfl hstep
      cases answer with
      | error error =>
          obtain ⟨_, rfl⟩ := hanswer
          exact ⟨none, .idle hholds (by simp), .finished ⟨⟨_, rfl⟩, rfl⟩⟩
      | ok bytes =>
          obtain ⟨hbytes, rfl⟩ := hanswer
          refine ⟨_, .idle hholds fun _ => Or.inl rfl, ?_⟩
          show Loading store format _ (afterEntry store format stream
            (collect records (store.decode format (fileName run) bytes))) _ _
          rw [decode_of_frozen hfile hbytes]
          refine .looping ⟨?_, hcollected.there, ?_⟩
          · simpa [hid] using hcollected.shown
          · intro record hrecord
            rcases List.mem_append.mp hrecord with hold | hnew
            · exact hcollected.offered record hold
            · cases List.mem_singleton.mp hnew
              exact ⟨w, by rw [hid]; exact hw, rfl⟩
  | finished hanswer => exact absurd hstep not_step_pure

end Steps

/-! ## The store in use -/

variable (store format) in
/-- The calls are for records that can be read back and that have an id. -/
def Admits : StoreOperation → Prop
  | .write record _ => format.Fits record ∧ record.id.value ≠ ""
  | _ => True

/-- What an outage does to the data directory. -/
def Outage.strikes : Outage → Volume String β → Volume String β → Prop
  | process, v, after => after = v
  | power, v, after => v.LosesPower after

variable (C store format) in
/-- The file store with any number of callers, in a process and on a machine that may fail. -/
def FileRunStore.inUse [DecidableEq C] :
    Automaton (Shared C StoreOperation.Answer (Request String β) Request.Answer (Volume String β))
      (StoreEvent C) :=
  Shared.automaton (store.perform format) fileSystem (Admits format) Outage.strikes

variable (store format) in
/-- The file store in use stands for a durable store. -/
structure Resembles
    (x : Shared C StoreOperation.Answer (Request String β) Request.Answer (Volume String β))
    (s : DurableStore C) : Prop where
  offering : s.Offering
  holds : Holds format x.world s
  calls : ∃ own : C → Option Resource,
    (∀ caller, Parallels store format x.world (x.tasks caller) (own caller)
      (s.standing caller)) ∧
    ∀ {caller other resource}, own caller = some resource → own other = some resource →
      caller = other

theorem Parallels.stop {task : CallState StoreOperation.Answer (Request String β) Request.Answer}
    {own : Option Resource} {standing : Standing C}
    (h : Parallels store format v task own standing) :
    Parallels store format v' task.stop none standing.stop := by
  cases h with
  | unused => exact .unused
  | closed => exact .closed
  | writing hwriting _ _ =>
      cases hwriting with
      | givingUp _ _ _ hanswer | finished hanswer =>
          rw [(Standing.stop_of_justifies hanswer)]
          exact .closed
      | _ => exact .closed
  | getting hgetting =>
      cases hgetting with
      | finished hanswer =>
          rw [(Standing.stop_of_justifies hanswer)]
          exact .closed
      | _ => exact .closed
  | loading hloading =>
      cases hloading with
      | finished hanswer =>
          rw [(Standing.stop_of_justifies hanswer)]
          exact .closed
      | _ => exact .closed

section InUse

variable [DecidableEq C]
  {x x' : Shared C StoreOperation.Answer (Request String β) Request.Answer (Volume String β)}
  {s : DurableStore C}

/-- One call has gone on, and the others have been spared. -/
theorem Resembles.work {caller : C}
    {task : CallState StoreOperation.Answer (Request String β) Request.Answer}
    {own : C → Option Resource} {own' : Option Resource} {s' : DurableStore C}
    (hoffering : s.Offering)
    (hcalls : ∀ caller, Parallels store format x.world (x.tasks caller) (own caller)
      (s.standing caller))
    (hdistinct : ∀ {caller other resource}, own caller = some resource →
      own other = some resource → caller = other)
    (hfollows : Follows format caller x.world v' (own caller) own' s s')
    (hcaller : Parallels store format v' task own' (s'.standing caller)) :
    ∃ s', DurableStore.automaton.History s [] s' ∧
      Resembles store format ({ x with world := v' }.set caller task) s' := by
  refine ⟨s', hfollows.history, ?_, hfollows.holds, Function.update own caller own', ?_, ?_⟩
  · exact hfollows.history.keeps (fun ht hstep => DurableStore.Step.offering ht hstep) hoffering
  · intro other
    by_cases hother : other = caller
    · subst hother
      rw [Function.update_self, Shared.tasks_set_same]
      exact hcaller
    · rw [Function.update_of_ne hother, Shared.tasks_set_of_ne _ _ hother]
      refine (hcalls other).spared (hfollows.spares ?_) (hfollows.evolves other hother)
      intro resource hresource
      refine ⟨(hresource ▸ hcalls other).owns, ?_⟩
      exact fun hmine => hother (hdistinct hresource hmine)
  · -- what the call has newly opened was not there before
    have hnew : ∀ {other resource}, other ≠ caller → own other = some resource →
        own' ≠ some resource := by
      intro other resource hother hresource hmine
      rcases hfollows.owns hmine with heq | hfresh
      · exact hother (hdistinct hresource (heq.trans hmine))
      · exact hfresh (hresource ▸ hcalls other).owns
    intro first second resource hfirst hsecond
    by_cases h₁ : first = caller
    · subst h₁
      by_cases h₂ : second = first
      · exact h₂.symm
      · rw [Function.update_self] at hfirst
        rw [Function.update_of_ne h₂] at hsecond
        exact absurd hfirst (hnew h₂ hsecond)
    · rw [Function.update_of_ne h₁] at hfirst
      by_cases h₂ : second = caller
      · subst h₂
        rw [Function.update_self] at hsecond
        exact absurd hsecond (hnew h₁ hfirst)
      · rw [Function.update_of_ne h₂] at hsecond
        exact hdistinct hfirst hsecond

/-- A call has begun or ended. -/
theorem Resembles.mark {caller : C}
    {task : CallState StoreOperation.Answer (Request String β) Request.Answer}
    {standing : Standing C} (h : Resembles store format x s)
    (hoffering : (s.set caller standing).Offering)
    (hcaller : Parallels store format x.world task none standing) :
    Resembles store format (x.set caller task) (s.set caller standing) := by
  obtain ⟨_, hholds, own, hcalls, hdistinct⟩ := h
  refine ⟨hoffering, ⟨hholds.settled, hholds.recent, hholds.tidy⟩,
    Function.update own caller none, ?_, ?_⟩
  · intro other
    by_cases hother : other = caller
    · subst hother
      rw [Function.update_self, Shared.tasks_set_same, DurableStore.standing_set_same]
      exact hcaller
    · rw [Function.update_of_ne hother, Shared.tasks_set_of_ne _ _ hother,
        DurableStore.standing_set_of_ne _ _ hother]
      exact hcalls other
  · have hkept : ∀ {other resource}, Function.update own caller none other = some resource →
        own other = some resource := by
      intro other resource hother
      by_cases heq : other = caller
      · rw [heq, Function.update_self] at hother
        cases hother
      · rwa [Function.update_of_ne heq] at hother
    intro first second resource hfirst hsecond
    exact hdistinct (hkept hfirst) (hkept hsecond)

/-- Every step of the file store is followed by the durable store. -/
theorem Resembles.step {e : Option (StoreEvent C)} (h : Resembles store format x s)
    (hstep : (inUse C store format).step x e x') :
    ∃ s', DurableStore.automaton.History s e.toList s' ∧ Resembles store format x' s' := by
  have hresembles := h
  obtain ⟨hoffering, hholds, own, hcalls, hdistinct⟩ := h
  cases hstep with
  | @call caller op hunused hadmits =>
      have hcaller := hcalls caller
      rw [hunused] at hcaller
      generalize hstanding : s.standing caller = standing at hcaller
      generalize own caller = mine at hcaller
      cases hcaller
      have hcall : s.Step (some (.called caller op)) (s.set caller (s.received op)) :=
        .call hstanding
      refine ⟨_, .of_step (e := some _) hcall,
        hresembles.mark (DurableStore.Step.offering hoffering hcall) ?_⟩
      cases op with
      | write record createOnly =>
          cases createOnly <;> exact .writing .begun hadmits.1 hadmits.2
      | get run => exact .getting .begun
      | loadAll => exact .loading .begun
  | @work caller op rest rest' world htask hstep =>
      have hcaller := hcalls caller
      rw [htask] at hcaller
      generalize hown : own caller = mine at hcaller
      cases hcaller with
      | writing hwriting hfits hid =>
          obtain ⟨s', own', hfollows, hposition⟩ := hwriting.step hholds hfits hid hstep
          exact Resembles.work hoffering hcalls hdistinct (hown ▸ hfollows)
            (.writing hposition hfits hid)
      | getting hgetting =>
          obtain ⟨s', hfollows, hposition⟩ := hgetting.step hholds hstep
          exact Resembles.work hoffering hcalls hdistinct (hown ▸ hfollows) (.getting hposition)
      | loading hloading =>
          obtain ⟨own', hfollows, hposition⟩ := hloading.step hholds hoffering hstep
          exact Resembles.work hoffering hcalls hdistinct (hown ▸ hfollows) (.loading hposition)
  | @answer caller op answer htask =>
      have hcaller := hcalls caller
      rw [htask] at hcaller
      have hanswer : s.Step (some (.answered caller op answer)) (s.set caller .closed) :=
        .answer hcaller.justifies
      exact ⟨_, .of_step (e := some _) hanswer,
        hresembles.mark (DurableStore.Step.offering hoffering hanswer) .closed⟩
  | @interrupt kind world hstrikes =>
      cases kind with
      | process =>
          cases hstrikes
          exact ⟨s.abandon, .of_step (e := some _) .crash, .stop fun _ => rfl,
            ⟨hholds.settled, hholds.recent, hholds.tidy⟩, fun _ => none,
            fun caller => (hcalls caller).stop, by simp⟩
      | power =>
          obtain ⟨s', hlost, hholds'⟩ := hholds.losesPower hstrikes
          refine ⟨s', .of_step (e := some _) (.powerLoss hlost), .stop hlost.standing, hholds',
            fun _ => none, fun caller => ?_, by simp⟩
          rw [hlost.standing]
          exact (hcalls caller).stop

omit [DecidableEq C] in
/-- Before the first call, on an empty directory. -/
theorem resembles_start :
    Resembles store format (C := C) (Shared.start Volume.empty) DurableStore.empty where
  offering := .stop (s := DurableStore.empty) fun _ => rfl
  holds := ⟨fun _ => .absent, fun _ => .nil, fun name hname => by
    simp [Shared.start, Volume.empty] at hname⟩
  calls := ⟨fun _ => none, fun _ => .unused, by simp⟩

/-- A history of the file store is one of the durable store it stands for. -/
theorem resembles_of_history {h : List (StoreEvent C)}
    (hrun : (inUse C store format).History (.start .empty) h x) :
    ∃ s : DurableStore C, DurableStore.automaton.History .empty h s ∧ Resembles store format x s :=
  hrun.simulated (fun hR hstep => Resembles.step hR hstep) resembles_start

end InUse

end Simulation

end PackageHarness
