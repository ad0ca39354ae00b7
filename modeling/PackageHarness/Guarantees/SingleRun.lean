/-
# PackageHarness.Guarantees.SingleRun — a run is never repeated.

A record is created once, and only its creation is followed by an execution. So over all processes,
crashes, failed saves, repeated claims and recovery actions, the algorithm of a run is started at
most once and its candidate is installed at most once. Whatever else is done for the run keeps its
record, reconciles its target or delivers its outcome.
-/
import PackageHarness.Conduct.Rehearsal
import PackageHarness.System.Office

namespace PackageHarness

open Interaction Sequence

/-- One run in the history of a life. -/
structure Life.RunsOnce (life : Life) (run : RunId) : Prop where
  started : AtMostOnce (Remark.Starts run) life.remarks
  updated : AtMostOnce (Remark.Updates run) life.remarks
  /-- What is done for the run settles it, or reconciles its target, or belongs to the one execution:
  since the run was created, the worker has not been concerned with anything else. -/
  executed : ∀ remark earlier asked, remark :: earlier <:+ life.remarks →
    remark.request = .runner run asked →
    asked.Settles ∨ (∃ target plan, Runner.Reconciles target plan asked) ∨
      Announced (Remark.Creates run) (fun remark => ¬ remark.Concerns run) earlier

/-! ## The window of an execution -/

namespace Episode

variable {ext : Externals} {episode : Episode} {run : RunId} {asked : RunnerRequest}
  {t before : Chronicle} {u : Trace} {record : RunRecord}

/-- Where nothing has changed hands since the creation of a run, it is still announced. -/
theorem announced_of_created {event : Remark → Prop} (hcreated : before.Created record)
    (hid : record.id = run) (hprepares : ∀ remark : Remark, remark.request.Prepares → ¬ event remark)
    (hquiet : ∀ x ∈ u, ¬ event ⟨.runner run x.request, some x.answer⟩) :
    Announced (Remark.Creates run) event (Chronicle.remarks (u.onBehalf run ++ before)) := by
  obtain ⟨since, rest, rfl, hsince⟩ := hcreated
  refine ⟨(u.onBehalf run).remarks ++ Chronicle.remarks since,
    ⟨.create record, some (.ok ())⟩, Chronicle.remarks rest, ?_, ⟨record, hid, rfl⟩, ?_⟩
  · rw [Chronicle.remarks_append, Chronicle.remarks_append, List.append_assoc]
    rfl
  · intro remark hremark
    rcases List.mem_append.mp hremark with hlater | hearlier
    · obtain ⟨y, hy, rfl⟩ := List.mem_map.mp hlater
      obtain ⟨x, hx, rfl⟩ := List.mem_map.mp hy
      exact hquiet x hx
    · obtain ⟨x, hx, rfl⟩ := List.mem_map.mp hearlier
      exact hprepares _ (hsince x hx)

theorem not_starts_of_prepares {remark : Remark} (h : remark.request.Prepares) :
    ¬ remark.Starts run := by
  rintro ⟨asked, hasked, hstarts⟩
  rw [hasked] at h
  cases asked with
  | enter point => exact h
  | _ => exact hstarts

/-- A process starts a run only after it has created it, and once. -/
theorem Spoken.starts_heralded (h : episode.Spoken ext) (hfinds : episode.chronicle.Finds) :
    Heralded (Remark.Creates run) (Remark.Starts run) episode.remarks := by
  rintro remark earlier hsuffix ⟨asked, hasked, hstarts⟩
  obtain ⟨t, ht, rfl, hlicensed⟩ := h.licensed hsuffix
  rw [hasked] at hlicensed
  rcases hlicensed hstarts.not_settles with hexecuting | ⟨_, _, _, _, _, _, hreconciles⟩
  · obtain ⟨u, before, record, rfl, hcreated, hid, _, hconducted⟩ := hexecuting
    have hquiet := hconducted (h.genuine hfinds ht hcreated hid)
    refine announced_of_created hcreated hid (fun _ => not_starts_of_prepares) ?_
    rintro x hx ⟨other, hother, hagain⟩
    cases hother
    cases asked with
    | enter point =>
        cases point with
        | runAlgorithm => exact hquiet ⟨x, hx, hagain⟩
        | _ => exact hstarts
    | _ => exact hstarts
  · cases asked with
    | enter point => exact hreconciles.elim
    | _ => exact hstarts.elim

/-- The candidate is installed by an algorithm that was started, and once. -/
theorem Spoken.updates_heralded (h : episode.Spoken ext) (hfinds : episode.chronicle.Finds) :
    Heralded (Remark.Starts run) (Remark.Updates run) episode.remarks := by
  rintro remark earlier hsuffix ⟨asked, hasked, hupdates⟩
  obtain ⟨t, ht, rfl, hlicensed⟩ := h.licensed hsuffix
  rw [hasked] at hlicensed
  cases asked with
  | pm call =>
      cases call with
      | updatePackage dnpName version =>
          rcases hlicensed id with hexecuting | ⟨_, _, _, _, _, _, hreconciles⟩
          · obtain ⟨u, before, record, rfl, hcreated, hid, _, hconducted⟩ := hexecuting
            obtain ⟨hcleared, honce⟩ := hconducted (h.genuine hfinds ht hcreated hid)
            obtain ⟨x, hx, hstarts⟩ := (hcleared dnpName rfl).started
            obtain ⟨since, rest, rfl⟩ := List.append_of_mem hx
            refine ⟨(Trace.onBehalf run since).remarks, ⟨.runner run x.request, some x.answer⟩,
              Chronicle.remarks (Trace.onBehalf run rest ++ before), ?_, ⟨_, rfl, hstarts⟩, ?_⟩
            · rw [Trace.onBehalf_append, List.append_assoc, Chronicle.remarks_append]
              rfl
            · rintro remark hremark ⟨other, hother, hagain⟩
              obtain ⟨y, hy, rfl⟩ := List.mem_map.mp hremark
              obtain ⟨z, hz, rfl⟩ := List.mem_map.mp hy
              cases hother
              exact honce hupdates ⟨z, List.mem_append_left _ hz, hagain⟩
          · exact hreconciles.elim
      | _ => exact hupdates.elim
  | _ => exact hupdates.elim

/-- What else is done for a run. -/
theorem Spoken.executed (h : episode.Spoken ext) {remark : Remark} {earlier : List Remark}
    (hsuffix : remark :: earlier <:+ episode.remarks) {asked : RunnerRequest}
    (hasked : remark.request = .runner run asked) :
    asked.Settles ∨ (∃ target plan, Runner.Reconciles target plan asked) ∨
      Announced (Remark.Creates run) (fun remark => ¬ remark.Concerns run) earlier := by
  obtain ⟨t, ht, rfl, hlicensed⟩ := h.licensed hsuffix
  rw [hasked] at hlicensed
  by_cases hsettles : asked.Settles
  · exact Or.inl hsettles
  · refine Or.inr ?_
    rcases hlicensed hsettles with hexecuting | ⟨_, _, target, plan, _, _, hreconciles⟩
    · obtain ⟨u, before, record, rfl, hcreated, hid, _⟩ := hexecuting
      refine Or.inr (announced_of_created hcreated hid ?_ ?_)
      · exact fun remark hprepares hother => hother (Or.inl hprepares)
      · exact fun x _ hother => hother (Or.inr ⟨x.request, rfl⟩)
    · exact Or.inl ⟨target, plan, hreconciles⟩

end Episode

/-- No run is repeated, whatever happens to the processes and the store, and whoever comes in
between. -/
theorem runs_once {ext : Externals} {office : Office} (h : office.Reachable ext) (run : RunId) :
    office.life.RunsOnce run := by
  have hspoken := h.crowded.spoken_episodes
  have hfinds := h.orderly.life.episodes
  have hcreated : AtMostOnce (Remark.Creates run) office.life.remarks := by
    rw [office.life.remarks_eq]
    refine (h.orderly.life.once run).append fun remark hopen => ?_
    exact Remark.not_creates_of_unanswered hopen run
  have hstarted : AtMostOnce (Remark.Starts run) office.life.remarks := by
    refine Heralded.atMostOnce (Heralded.flatMap fun episode hepisode => ?_) hcreated
    exact (hspoken episode hepisode).starts_heralded (hfinds episode hepisode)
  refine ⟨hstarted, ?_, ?_⟩
  · refine Heralded.atMostOnce (Heralded.flatMap fun episode hepisode => ?_) hstarted
    exact (hspoken episode hepisode).updates_heralded (hfinds episode hepisode)
  · intro remark earlier asked hsuffix hasked
    obtain ⟨episode, hepisode, before, older, hwithin, rfl⟩ := suffix_flatMap hsuffix
    refine ((hspoken episode hepisode).executed hwithin hasked).imp_right fun h => ?_
    exact h.imp_right fun hannounced => hannounced.append older

/-! ## A run on its way -/

namespace Sample

/-- The candidate is about to be installed. -/
def updates (_ : World) : WorkerRequest → Bool
  | .runner _ request => request.isCall (.updatePackage target ⟨"0.2.0"⟩)
  | _ => false

end Sample

def updating : Showing fun life : Life => life.worker.pending.any (Sample.updates life.world) :=
  ⟨(Life.start Sample.ext Sample.deployment).replay
    { Sample.cooperates none none (.ok ()) with stops := Sample.updates }, by decide +kernel⟩

theorem updating_reachable : Life.Reachable Sample.ext atomicOperators updating.1 := by
  have hadmitted : (World.reply { Sample.cooperates none none (.ok ()) with
      stops := Sample.updates }).Admitted atomicOperators.surroundings :=
    World.reply_admitted (Or.inr fun _ h => h)
  exact Life.reachable_start.runs (Life.runs_replay hadmitted)

/-- The worker waits for the installation of the sample job's candidate. -/
theorem updating_requests : ∃ run, updating.1.Requests
    (.runner run (.pm (.updatePackage Sample.target ⟨"0.2.0"⟩))) := by
  obtain ⟨request, hpending, hupdates⟩ := Option.any_eq_true _ _ |>.mp updating.2
  obtain ⟨next, hworker⟩ := Program.pending_eq_some hpending
  cases request with
  | runner run asked =>
      cases asked with
      | pm call =>
          have hcall : call = .updatePackage Sample.target ⟨"0.2.0"⟩ := by
            simpa [Sample.updates, RunnerRequest.isCall] using hupdates
          subst hcall
          exact ⟨run, next, hworker⟩
      | _ => cases hupdates
  | _ => cases hupdates

/-- A run that has been started and is being updated is not repeated. -/
theorem updating_runs_once : ∃ run, (∃ remark ∈ updating.1.remarks, remark.Updates run) ∧
    updating.1.RunsOnce run := by
  obtain ⟨run, next, hworker⟩ := updating_requests
  refine ⟨run, ?_, runs_once updating_reachable.unattended run⟩
  rw [Life.remarks_eq, hworker]
  exact ⟨_, List.mem_append_left _ (List.mem_singleton_self _), _, rfl, trivial⟩

end PackageHarness
