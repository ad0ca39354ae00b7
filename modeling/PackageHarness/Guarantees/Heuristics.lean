/-
# PackageHarness.Guarantees.Heuristics — what the heuristic status says of the candidate's logs.

The analyzer's nested loops are one bounded pass over the sightings: the places where a log of the
candidate shows a signature that no baseline log shows. The status is read off what the pass keeps,
so it is right unless twenty warnings fill the list before the first critical sighting is come to.
-/
import PackageHarness.Analysis.Heuristic
import PackageHarness.Sequence.Bounded
import PackageHarness.System.Scenario

namespace PackageHarness

open Sequence Heuristic

/-! ## The specification -/

/-- The signature occurs in the log, whatever the case of its ASCII letters. -/
def Occurs (pattern log : String) : Prop := pattern.toList <:+: log.toList.map Char.toLower

/-- Some log of the candidate shows the signature, and none of the baseline. -/
def CandidateOnly (input : LogAnalysisInput) (pattern : String) : Prop :=
  (∃ entry ∈ input.candidate, Occurs pattern entry.2) ∧
    ∀ entry ∈ input.baseline, ¬ Occurs pattern entry.2

/-- The result reflects all logs of the candidate. -/
structure Reflects (input : LogAnalysisInput) (result : LogAnalysisResult) : Prop where
  critical : result.status = .critical ↔
    ∃ signature ∈ SIGNATURES, signature.2 = .critical ∧ CandidateOnly input signature.1
  clean : result.status = .clean ↔
    ∀ signature ∈ SIGNATURES, ¬ CandidateOnly input signature.1
  suspicious : result.status = .suspicious ↔
    (∃ signature ∈ SIGNATURES, CandidateOnly input signature.1) ∧
      ∀ signature ∈ SIGNATURES, signature.2 = .critical → ¬ CandidateOnly input signature.1
  distinct : (result.newFindings.map fun finding => (finding.container, finding.reason)).Nodup
  reported : ∀ finding ∈ result.newFindings, ∃ signature ∈ SIGNATURES,
    finding.severity = signature.2 ∧ finding.reason = findingReason signature.1 ∧
      CandidateOnly input signature.1

/-! ## Sightings -/

/-- A log of a container in which a signature was seen. -/
structure Sighting where
  container : Option String
  log : String
  pattern : String

namespace Sighting

/-- What findings are deduplicated by. -/
def key (sighting : Sighting) : Option String × String := (sighting.container, sighting.pattern)

def severity (sighting : Sighting) : FindingSeverity :=
  (SIGNATURES.lookup sighting.pattern).getD .warning

def isCritical (sighting : Sighting) : Bool := sighting.severity == .critical

def finding (ext : Externals) (sighting : Sighting) : LogFinding :=
  Heuristic.finding ext sighting.container sighting.log sighting.pattern sighting.severity

end Sighting

/-- The sightings in one log, for the signatures that are left to try. -/
def sightingsIn (baseline : List String) (container : Option String) (log : String)
    (signatures : List (String × FindingSeverity)) : List Sighting :=
  (signatures.filter fun signature => occurs log signature.1 && !baseline.contains signature.1).map
    fun signature => ⟨container, log, signature.1⟩

/-- All sightings, in the order in which the analyzer comes to them. -/
def sightings (input : LogAnalysisInput) : List Sighting :=
  input.candidate.flatMap fun entry =>
    sightingsIn (signatures input.baseline) entry.1 entry.2 SIGNATURES

/-- The warnings before the first critical sighting. -/
def leadingWarnings (input : LogAnalysisInput) : List Sighting :=
  (sightings input).takeWhile fun sighting => !sighting.isCritical

theorem occurs_iff {log pattern : String} : occurs log pattern = true ↔ Occurs pattern log := by
  rw [occurs, containsText_iff, toAsciiLowercase, String.toList_ofList, Occurs]

theorem lookup_signature : ∀ signature ∈ SIGNATURES,
    SIGNATURES.lookup signature.1 = some signature.2 := by
  decide

theorem mem_sortNames {name : String} {names : List String} :
    name ∈ sortNames names ↔ name ∈ names :=
  (List.mergeSort_perm _ _).mem_iff

theorem mem_signatures {logs : List (Option String × String)} {pattern : String} :
    pattern ∈ signatures logs ↔
      (∃ signature ∈ SIGNATURES, signature.1 = pattern) ∧
        ∃ entry ∈ logs, Occurs pattern entry.2 := by
  rw [signatures, mem_sortNames, List.mem_filter, List.mem_map, List.any_eq_true]
  simp only [occurs_iff]

variable {ext : Externals} {input : LogAnalysisInput} {kept : List Sighting}
  {baseline : List String}

theorem mem_sightings {sighting : Sighting} (h : sighting ∈ sightings input) :
    ∃ signature ∈ SIGNATURES, signature.1 = sighting.pattern ∧
      sighting.severity = signature.2 ∧ CandidateOnly input signature.1 := by
  obtain ⟨entry, hentry, hin⟩ := List.mem_flatMap.mp h
  obtain ⟨signature, hsignature, rfl⟩ := List.mem_map.mp hin
  obtain ⟨hlisted, hseen⟩ := List.mem_filter.mp hsignature
  rw [Bool.and_eq_true, occurs_iff, Bool.not_eq_true', List.contains_eq_mem,
    decide_eq_false_iff_not, mem_signatures] at hseen
  refine ⟨signature, hlisted, rfl, ?_, ⟨entry, hentry, hseen.1⟩, ?_⟩
  · rw [Sighting.severity, lookup_signature signature hlisted]
    rfl
  · intro other hother hoccurs
    exact hseen.2 ⟨⟨signature, hlisted, rfl⟩, other, hother, hoccurs⟩

theorem exists_sighting {signature : String × FindingSeverity} (hlisted : signature ∈ SIGNATURES)
    (h : CandidateOnly input signature.1) :
    ∃ sighting ∈ sightings input, sighting.pattern = signature.1 ∧
      sighting.severity = signature.2 := by
  obtain ⟨⟨entry, hentry, hoccurs⟩, hbaseline⟩ := h
  refine ⟨⟨entry.1, entry.2, signature.1⟩, ?_, rfl, ?_⟩
  · refine List.mem_flatMap.mpr ⟨entry, hentry, List.mem_map.mpr ⟨signature, ?_, rfl⟩⟩
    refine List.mem_filter.mpr ⟨hlisted, ?_⟩
    rw [Bool.and_eq_true, occurs_iff, Bool.not_eq_true', List.contains_eq_mem,
      decide_eq_false_iff_not, mem_signatures]
    refine ⟨hoccurs, ?_⟩
    rintro ⟨_, other, hother, hseen⟩
    exact hbaseline other hother hseen
  · rw [Sighting.severity, lookup_signature signature hlisted]
    rfl

/-! ## The loops are one bounded pass -/

/-- The state of the loops after some sightings have been kept. -/
def foundOf (ext : Externals) (kept : List Sighting) : Found where
  newFindings := kept.map (Sighting.finding ext)
  deduplicated := kept.map Sighting.key

theorem scanLog_eq {container : Option String} {log : String}
    {tried : List (String × FindingSeverity)}
    (htried : ∀ signature ∈ tried, signature ∈ SIGNATURES) :
    scanLog ext baseline container log tried (foundOf ext kept) =
      foundOf ext (collect Sighting.key MAX_FINDINGS kept
        (sightingsIn baseline container log tried)) := by
  induction tried generalizing kept with
  | nil => rfl
  | cons signature tried ih =>
      obtain ⟨pattern, severity⟩ := signature
      have hrest := fun signature h => htried signature (List.mem_cons_of_mem _ h)
      have hseverity := lookup_signature _ (htried _ (List.mem_cons_self ..))
      rw [scanLog, sightingsIn, List.filter_cons]
      cases hoccurs : occurs log pattern with
      | false => exact ih hrest
      | true =>
          cases hbaseline : baseline.contains pattern with
          | true => exact ih hrest
          | false =>
              show _ = foundOf ext (collect _ _ kept (⟨container, log, pattern⟩ ::
                sightingsIn baseline container log tried))
              rw [collect]
              have hseen : (foundOf ext kept).deduplicated.contains (container, pattern) = true ↔
                  Sighting.key ⟨container, log, pattern⟩ ∈ kept.map Sighting.key := by
                rw [List.contains_eq_mem, decide_eq_true_iff]
                rfl
              by_cases hkept : Sighting.key ⟨container, log, pattern⟩ ∈ kept.map Sighting.key
              · rw [if_pos hkept, hseen.mpr hkept]
                exact ih hrest
              · have hnew :
                    (foundOf ext kept).deduplicated.contains (container, pattern) = false := by
                  rw [← Bool.not_eq_true, hseen]
                  exact hkept
                rw [if_neg hkept, hnew]
                -- one more finding, with the severity that the signature is listed with
                have hgrown : (⟨(foundOf ext kept).newFindings ++
                      [Heuristic.finding ext container log pattern severity],
                    (foundOf ext kept).deduplicated ++ [(container, pattern)]⟩ : Found) =
                    foundOf ext (kept ++ [⟨container, log, pattern⟩]) := by
                  have hsame : Sighting.finding ext ⟨container, log, pattern⟩ =
                      Heuristic.finding ext container log pattern severity := by
                    rw [Sighting.finding, Sighting.severity, hseverity]
                    rfl
                  rw [foundOf, foundOf, List.map_append, List.map_append, List.map_singleton,
                    List.map_singleton, hsame]
                  rfl
                dsimp only [Bool.not_true, Bool.or_false, Bool.false_eq_true, if_false]
                rw [if_neg (by decide)]
                have hlength : ((foundOf ext kept).newFindings ++
                      [Heuristic.finding ext container log pattern severity]).length =
                    (kept ++ [(⟨container, log, pattern⟩ : Sighting)]).length := by
                  simp [foundOf]
                by_cases hfull : (kept ++ [(⟨container, log, pattern⟩ : Sighting)]).length =
                    MAX_FINDINGS
                · rw [if_pos hfull, if_pos (hlength.trans hfull)]
                  exact hgrown
                · rw [if_neg hfull, if_neg (hlength ▸ hfull), hgrown]
                  exact ih hrest

theorem scanLogs_eq {logs : List (Option String × String)} (hroom : kept.length < MAX_FINDINGS) :
    scanLogs ext baseline logs (foundOf ext kept) =
      foundOf ext (collect Sighting.key MAX_FINDINGS kept
        (logs.flatMap fun entry => sightingsIn baseline entry.1 entry.2 SIGNATURES)) := by
  induction logs generalizing kept with
  | nil => rfl
  | cons entry logs ih =>
      obtain ⟨container, log⟩ := entry
      rw [scanLogs, scanLog_eq (fun _ h => h), List.flatMap_cons, collect_append hroom]
      have hlength : ∀ kept : List Sighting, (foundOf ext kept).newFindings.length = kept.length :=
        fun kept => List.length_map ..
      dsimp only
      rw [hlength]
      split
      · rfl
      · next hopen =>
          exact ih (Nat.lt_of_le_of_ne (length_collect_le hroom) hopen)

/-- The findings are the first twenty distinct sightings. -/
theorem newFindings_eq (ext : Externals) (input : LogAnalysisInput) :
    (analyzeHeuristically ext input).newFindings =
      (collect Sighting.key MAX_FINDINGS [] (sightings input)).map (Sighting.finding ext) := by
  have hroom : ([] : List Sighting).length < MAX_FINDINGS := by decide
  exact congrArg Found.newFindings (scanLogs_eq hroom)

/-! ## The status -/

section

variable {findings : List LogFinding}

theorem any_critical_iff :
    (findings.any fun finding => finding.severity == .critical) = true ↔
      ∃ finding ∈ findings, finding.severity = .critical := by
  rw [List.any_eq_true]
  simp only [beq_iff_eq]

theorem statusOf_critical_iff : statusOf findings = .critical ↔
    ∃ finding ∈ findings, finding.severity = .critical := by
  rw [← any_critical_iff, statusOf]
  split
  · next hcritical => exact ⟨fun _ => hcritical, fun _ => rfl⟩
  · next hnone =>
      refine ⟨?_, fun h => absurd h hnone⟩
      split <;> exact nofun

theorem statusOf_clean_iff : statusOf findings = .clean ↔ findings = [] := by
  unfold statusOf
  cases findings with
  | nil => simp
  | cons finding findings =>
      split
      · exact ⟨nofun, nofun⟩
      · exact ⟨nofun, nofun⟩

theorem statusOf_suspicious_iff : statusOf findings = .suspicious ↔
    findings ≠ [] ∧ ¬ ∃ finding ∈ findings, finding.severity = .critical := by
  rw [← any_critical_iff, statusOf]
  split
  · next hcritical => exact ⟨nofun, fun h => absurd hcritical h.2⟩
  · next hnone =>
      cases findings with
      | nil => exact ⟨nofun, fun h => absurd rfl h.1⟩
      | cons finding findings => exact ⟨fun _ => ⟨nofun, hnone⟩, fun _ => rfl⟩

end

theorem findingReason_injective {pattern pattern' : String}
    (h : findingReason pattern = findingReason pattern') : pattern = pattern' :=
  (String.append_right_inj _).mp h

theorem exists_critical_sighting_iff :
    (∃ sighting ∈ sightings input, sighting.isCritical = true) ↔
      ∃ signature ∈ SIGNATURES, signature.2 = .critical ∧ CandidateOnly input signature.1 := by
  constructor
  · rintro ⟨sighting, hmem, hcritical⟩
    obtain ⟨signature, hlisted, _, hseverity, honly⟩ := mem_sightings hmem
    exact ⟨signature, hlisted, hseverity.symm.trans (beq_iff_eq.mp hcritical), honly⟩
  · rintro ⟨signature, hlisted, hcritical, honly⟩
    obtain ⟨sighting, hmem, _, hseverity⟩ := exists_sighting hlisted honly
    exact ⟨sighting, hmem, beq_iff_eq.mpr (hseverity.trans hcritical)⟩

theorem sightings_eq_nil_iff :
    sightings input = [] ↔ ∀ signature ∈ SIGNATURES, ¬ CandidateOnly input signature.1 := by
  constructor
  · intro hnil signature hlisted honly
    obtain ⟨sighting, hmem, _⟩ := exists_sighting hlisted honly
    rw [hnil] at hmem
    cases hmem
  · intro hnone
    refine List.eq_nil_iff_forall_not_mem.mpr ?_
    intro sighting hmem
    obtain ⟨signature, hlisted, _, _, honly⟩ := mem_sightings hmem
    exact hnone signature hlisted honly

/-- What the pass keeps shows a critical signature unless warnings have filled the list. -/
theorem found_critical_iff (ext : Externals) (input : LogAnalysisInput) :
    (∃ finding ∈ (analyzeHeuristically ext input).newFindings, finding.severity = .critical) ↔
      (∃ signature ∈ SIGNATURES, signature.2 = .critical ∧ CandidateOnly input signature.1) ∧
        distinct Sighting.key (leadingWarnings input) < MAX_FINDINGS := by
  have hkey : ∀ x y : Sighting, x.key = y.key → x.isCritical = y.isCritical := by
    intro x y hsame
    have hpattern : x.pattern = y.pattern := congrArg Prod.snd hsame
    rw [Sighting.isCritical, Sighting.isCritical, Sighting.severity, Sighting.severity, hpattern]
  rw [← exists_critical_sighting_iff, newFindings_eq]
  refine Iff.trans ?_ (exists_mem_collect_iff hkey (by decide))
  constructor
  · rintro ⟨finding, hmem, hcritical⟩
    obtain ⟨sighting, hsighting, rfl⟩ := List.mem_map.mp hmem
    exact ⟨sighting, hsighting, beq_iff_eq.mpr hcritical⟩
  · rintro ⟨sighting, hsighting, hcritical⟩
    exact ⟨_, List.mem_map_of_mem hsighting, beq_iff_eq.mp hcritical⟩

/-- The heuristic result reflects all logs of the candidate exactly if it has no critical signature
of its own, or fewer than twenty distinct warnings come before the first one. -/
theorem heuristic_reflects_iff (ext : Externals) (input : LogAnalysisInput) :
    Reflects input (analyzeHeuristically ext input) ↔
      ((∃ signature ∈ SIGNATURES, signature.2 = .critical ∧ CandidateOnly input signature.1) →
        distinct Sighting.key (leadingWarnings input) < MAX_FINDINGS) := by
  have hfound := found_critical_iff ext input
  have hcritical : (analyzeHeuristically ext input).status = .critical ↔
      ∃ finding ∈ (analyzeHeuristically ext input).newFindings, finding.severity = .critical :=
    statusOf_critical_iff
  have hsuspicious : (analyzeHeuristically ext input).status = .suspicious ↔
      (analyzeHeuristically ext input).newFindings ≠ [] ∧
        ¬ ∃ finding ∈ (analyzeHeuristically ext input).newFindings, finding.severity = .critical :=
    statusOf_suspicious_iff
  have hempty : (analyzeHeuristically ext input).newFindings = [] ↔
      ∀ signature ∈ SIGNATURES, ¬ CandidateOnly input signature.1 := by
    rw [newFindings_eq, List.map_eq_nil_iff, collect_eq_nil_iff, sightings_eq_nil_iff]
  constructor
  · intro hreflects hexists
    exact (hfound.mp (hcritical.mp (hreflects.critical.mpr hexists))).2
  · intro hroom
    have hall : (∃ finding ∈ (analyzeHeuristically ext input).newFindings,
        finding.severity = .critical) ↔
        ∃ signature ∈ SIGNATURES, signature.2 = .critical ∧ CandidateOnly input signature.1 :=
      ⟨fun h => (hfound.mp h).1, fun h => hfound.mpr ⟨h, hroom h⟩⟩
    refine ⟨hcritical.trans hall, statusOf_clean_iff.trans hempty, ?_, ?_, ?_⟩
    · rw [hsuspicious, hall, Ne, hempty]
      constructor
      · rintro ⟨hsome, hnone⟩
        refine ⟨?_, fun signature hlisted hsevere honly =>
          hnone ⟨signature, hlisted, hsevere, honly⟩⟩
        by_contra hno
        exact hsome fun signature hlisted honly => hno ⟨signature, hlisted, honly⟩
      · rintro ⟨⟨signature, hlisted, honly⟩, hnone⟩
        refine ⟨fun hno => hno signature hlisted honly, ?_⟩
        rintro ⟨signature', hlisted', hsevere, honly'⟩
        exact hnone signature' hlisted' hsevere honly'
    · rw [newFindings_eq, List.map_map]
      have hkeys : ((collect Sighting.key MAX_FINDINGS [] (sightings input)).map
          Sighting.key).Nodup := nodup_collect List.nodup_nil
      have hreasons := hkeys.map (f := fun key : Option String × String =>
        (key.1, findingReason key.2)) ?_
      · rwa [List.map_map] at hreasons
      · rintro ⟨container, pattern⟩ ⟨container', pattern'⟩ hsame
        obtain ⟨hcontainer, hreason⟩ := Prod.mk.inj hsame
        exact Prod.ext hcontainer (findingReason_injective hreason)
    · intro finding hmem
      rw [newFindings_eq] at hmem
      obtain ⟨sighting, hkept, rfl⟩ := List.mem_map.mp hmem
      rcases mem_of_mem_collect hkept with hnil | hsighting
      · cases hnil
      · obtain ⟨signature, hlisted, hpattern, hseverity, honly⟩ := mem_sightings hsighting
        exact ⟨signature, hlisted, hseverity, hpattern ▸ rfl, honly⟩

namespace Sample

/-- Ten containers with two warnings each, and one that panics after them. -/
def noisyLogs : LogAnalysisInput where
  baseline := []
  candidate :=
    (["a", "b", "c", "d", "e", "f", "g", "h", "i", "j"].map fun container =>
      (some container, "Permission denied, restart loop")) ++ [(some "k", "panic")]

theorem signatures_noisyLogs : signatures noisyLogs.baseline = [] := by
  refine List.eq_nil_iff_forall_not_mem.mpr ?_
  intro pattern hmem
  obtain ⟨_, entry, hentry, _⟩ := mem_signatures.mp hmem
  cases hentry

theorem distinct_noisyLogs : distinct Sighting.key (leadingWarnings noisyLogs) = MAX_FINDINGS := by
  rw [leadingWarnings, sightings, signatures_noisyLogs]
  decide

end Sample

/-- Twenty warnings hide a panic: the status is suspicious, not critical. -/
theorem hidden_panic_is_suspicious :
    ¬ ∀ ext input, Reflects input (analyzeHeuristically ext input) := by
  intro hreflects
  have hcritical := (hreflects Sample.ext Sample.noisyLogs).critical.mpr
    ⟨("panic", .critical), by decide, rfl,
      ⟨(some "k", "panic"), by decide, occurs_iff.mp (by decide)⟩, nofun⟩
  have hfull := ((found_critical_iff Sample.ext Sample.noisyLogs).mp
    (statusOf_critical_iff.mp hcritical)).2
  rw [Sample.distinct_noisyLogs] at hfull
  exact absurd hfull (Nat.lt_irrefl MAX_FINDINGS)

end PackageHarness
