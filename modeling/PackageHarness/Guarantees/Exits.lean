/-
# PackageHarness.Guarantees.Exits — every exit of an execution leaves its target to a cleanup.

Every error of the package manager, every failed save and every signal is an exit of its own. Over
all of them, an execution that returns has either changed nothing or reconciled its target once,
after its last change; and whatever the store holds after a change asks for a cleanup.
-/
import PackageHarness.Conduct.Rehearsal
import PackageHarness.Conduct.Restoration
import PackageHarness.Guarantees.Passed

namespace PackageHarness

open Interaction Routine Conduct

/-- The result that the record carries reports the cleanup of the record. -/
def RunRecord.ReportsCleanup (record : RunRecord) : Prop :=
  ∃ result, record.result = some result ∧ result.cleanup = record.cleanup

/-- How an execution leaves its target, by its outcome and its conversation. -/
structure CleansUp (config : RunnerConfig) (runId : RunId) (outcome : Except ControllerError Unit)
    (t : Trace) : Prop where
  /-- Either nothing was changed and the cleanup is skipped, or the target was reconciled once,
  after the last change, and the result tells how. -/
  returned : outcome = .ok () →
    (¬ t.Mentions RunnerRequest.changes ∧ ∀ final, t.Persisted final →
      final.cleanup.status = .skipped ∧ final.ReportsCleanup) ∨
    ∃ saved before after final, Restored config saved final.cleanup before after t ∧
      t.Persisted final ∧ final.ReportsCleanup
  /-- An execution of a queued record that returns has persisted a result. -/
  persisted : outcome = .ok () → ∀ found, ⟨.get runId, .ok (some found)⟩ ∈ t →
    found.status = .queued → ∃ final, t.Persisted final
  /-- After a change, the record in the store asks for a cleanup, and does not call it passed unless
  the target was reconciled with that result. -/
  held : t.Mentions RunnerRequest.changes → ∀ held, t.MayHold held →
    held.worker.cleanupRequired = true ∧ (held.cleanup.status = .passed →
      ∃ saved cleanup before after, Restored config saved cleanup before after t ∧
        cleanup.status = .passed)
  /-- Until the cleanup begins, nothing is changed after a boundary at which a signal was up. -/
  heeded : ∀ x earlier, x :: earlier <:+ t → x.request.changes → Trace.Uncleaned earlier →
    Trace.Clear earlier

section

variable {ext : Externals} {config : RunnerConfig} {runId : RunId} {came : Prop} {s : Execution}
  {t : Trace} {outcome : Except ControllerError Unit}

/-- What was changed before the cleanup began was changed by the test. -/
theorem Restored.heeds {saved : RunRecord} {cleanup : CleanupResult} {before after : Trace}
    (h : Restored config saved cleanup before after t)
    {x : Exchange RunnerRequest RunnerRequest.Answer} {earlier : Trace} (hsuffix : x :: earlier <:+ t)
    (hchanges : x.request.changes) (huncleaned : earlier.Uncleaned) : earlier.Clear := by
  obtain ⟨packages, hran⟩ := h.ran
  obtain ⟨later, rfl, _⟩ := h.ended
  have hbefore : before <:+ later ++ after := hran.suffix.trans (List.suffix_append ..)
  rcases List.suffix_or_suffix_of_suffix hsuffix hbefore with hin | hbeyond
  · exact h.heeded x earlier hin hchanges
  -- the cleanup had begun, or it was just beginning
  obtain ⟨required, opening, rfl, _⟩ := h.opened
  rcases List.suffix_cons_iff.mp hbeyond with heq | hlater
  · cases (List.cons.inj heq).1
    exact hchanges.elim
  · refine absurd (hlater.subset ?_) (huncleaned saved (.ok ()))
    exact List.mem_cons_of_mem _ (List.mem_cons_self ..)

theorem Conduct.Tailed.heeds (h : Tailed config came s t)
    {x : Exchange RunnerRequest RunnerRequest.Answer} {earlier : Trace} (hsuffix : x :: earlier <:+ t)
    (hchanges : x.request.changes) (huncleaned : earlier.Uncleaned) : earlier.Clear := by
  rcases h with htended | hspared
  · obtain ⟨saved, before, after, hrestored⟩ := htended.restored
    exact hrestored.heeds hsuffix hchanges huncleaned
  · exact hspared.heeded x earlier hsuffix hchanges

theorem Conduct.Tailed.held (h : Tailed config came s t) (hpending : ¬ came)
    (hchanged : t.Mentions RunnerRequest.changes) {held : RunRecord} (hheld : t.MayHold held) :
    held.worker.cleanupRequired = true ∧ (held.cleanup.status = .passed →
      ∃ saved cleanup before after, Restored config saved cleanup before after t ∧
        cleanup.status = .passed) := by
  refine ⟨h.custody.guarded hchanged held hheld, fun hpassed => ?_⟩
  rcases h with htended | hspared
  · obtain ⟨saved, before, after, hrestored⟩ := htended.restored
    exact ⟨saved, _, before, after, hrestored,
      (htended.unheld held hheld hpassed).resolve_right hpending⟩
  · exact absurd (hspared.unheld held hheld hpassed) hpending

/-- An execution that has got to its end. -/
theorem Conduct.Tailed.cleansUp (h : Tailed config came s t) (hpending : ¬ came)
    (hreported : Reported s t) (hpersisted : t.Persisted s.record) :
    CleansUp config runId (.ok ()) t := by
  obtain ⟨⟨result, hresult, hcleanup⟩, _⟩ := hreported
  refine ⟨fun _ => ?_, fun _ _ _ _ => ⟨s.record, hpersisted⟩,
    fun hchanged held => h.held hpending hchanged, fun x earlier => h.heeds⟩
  rcases h with htended | hspared
  · obtain ⟨saved, before, after, hrestored⟩ := htended.restored
    exact Or.inr ⟨saved, before, after, s.record, hrestored, hpersisted, result, hresult, hcleanup⟩
  · refine Or.inl ⟨hspared.untouched hspared.unauthorized, fun final hfinal => ?_⟩
    cases hfinal.unique hpersisted
    exact ⟨congrArg CleanupResult.status hspared.skipped, result, hresult, hcleanup⟩

/-- An execution that has given up. -/
theorem Conduct.GivenUp.cleansUp {error : ControllerError} (h : GivenUp config came s t)
    (hpending : ¬ came) : CleansUp config runId (.error error) t := by
  refine ⟨nofun, nofun, fun hchanged held hheld => ?_, fun x earlier hsuffix hchanges hbegun => ?_⟩
  · rcases h with huntended | htailed
    · exact ⟨huntended.guarded hchanged held hheld,
        fun hpassed => absurd (huntended.unheld held hheld hpassed) hpending⟩
    · exact htailed.held hpending hchanged hheld
  · rcases h with huntended | htailed
    · exact huntended.heeded x earlier hsuffix hchanges
    · exact htailed.heeds hsuffix hchanges hbegun

/-- However an execution ends, it leaves its target to a cleanup. A queued record is taken as it was
created: its cleanup is still to come. -/
theorem execute_cleans_up
    (h : Reaches recording (Runner.execute ext config runId, []) (.pure outcome, t))
    (hpending : ∀ found, ⟨.get runId, .ok (some found)⟩ ∈ t → found.status = .queued →
      found.cleanup.status = .pending) :
    CleansUp config runId outcome t := by
  rcases Safe.ends execute_custody h with
    ⟨answer, rfl, hunqueued⟩ | ⟨record, hfound, hqueued, s, hends⟩
  · have hunchanged : ¬ Transcript.Mentions ([⟨.get runId, answer⟩] : Trace)
        RunnerRequest.changes := by
      rw [Trace.changes_cons id]
      rintro ⟨x, hx, _⟩
      exact List.not_mem_nil hx
    refine ⟨fun _ => Or.inl ⟨hunchanged, fun final hfinal => ?_⟩, fun _ found hfound hqueued => ?_,
      fun hchanged => absurd hchanged hunchanged, fun x earlier hsuffix hchanges => ?_⟩
    · obtain ⟨published, earlier, heq⟩ := hfinal
      exact absurd (congrArg List.length heq) (by simp)
    · cases List.mem_singleton.mp hfound
      exact absurd hqueued (hunqueued found rfl)
    · exact absurd ⟨x, hsuffix.subset (List.mem_cons_self ..), hchanges⟩ hunchanged
  · have hfresh : ¬ record.cleanup.status = .passed := by
      rw [hpending record hfound hqueued]
      exact nofun
    rcases outcome with error | _
    · exact GivenUp.cleansUp hends hfresh
    · exact hends.1.cleansUp hfresh hends.2.1 hends.2.2

end

/-- The sample job, tested and cleaned up. -/
theorem passing_cleans_up :
    CleansUp Sample.deployment.runner Sample.run (.ok ()) passing.1.2 ∧
      passing.1.2.Mentions RunnerRequest.changes := by
  obtain ⟨hexecutes, final, hpersisted, htest⟩ := Sample.executes_rehearsed rfl passing.2
  refine ⟨execute_cleans_up hexecutes.returned ?_, ?_⟩
  · intro found hfound _
    have hreply := Sample.mem_rehearsed hfound
    cases hreply
    rfl
  · obtain ⟨result, hresult, hverdict⟩ := Option.any_eq_true _ _ |>.mp htest
    obtain ⟨outcome, ended, part, cleaned, final', hconcluded⟩ := executes_concluded hexecutes
    obtain ⟨finished, hconclusion⟩ := hconcluded.conclusion
    obtain ⟨result', hresult', hdecided, _⟩ := conclude_result
    cases hpersisted.unique hconcluded.persisted
    cases hresult.symm.trans (hconclusion.trans hresult')
    rcases outcome with failure | _
    · refine absurd (hdecided.symm.trans ?_) hconcluded.passed_of_error
      simpa using hverdict
    · exact ⟨_, hconcluded.reached_end.1, rfl⟩

end PackageHarness
