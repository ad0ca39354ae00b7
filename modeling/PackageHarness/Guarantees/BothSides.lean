/-
# PackageHarness.Guarantees.BothSides — which requests to the model carry candidate logs.

The logs of both sides go into one JSON text, the baseline first, and the text is cut as a whole.
What is left of the limit after the baseline decides whether anything of the candidate is sent: the
first candidate log that is not empty begins at a position that depends on the baseline and on the
empty logs before it.
-/
import PackageHarness.Analysis.NexusRequest
import PackageHarness.Guarantees.LongTokens
import PackageHarness.Guarantees.Truncation
import PackageHarness.Runner.Controller

namespace PackageHarness

open Json Nexus Redaction Sequence

/-! ## Beginnings of the candidate's entries -/

/-- Entries that others follow, each with its comma. -/
def leadText (entries : List (Option String × String)) : String :=
  String.join (entries.map fun entry => render (entryJson entry) ++ ",")

/-- An entry up to its text. -/
def entryLead (container : Option String) : String := "[" ++ render (option string container) ++ ",\""

/-- A text of the entries that ends behind the first character of a log. -/
structure ReachesLog (entries : List (Option String × String)) (text : String) : Prop where
  split : ∃ before container log after c cs, entries = before ++ (container, log) :: after ∧
    log.toList = c :: cs ∧ text = leadText before ++ (entryLead container ++ escapeChar c)

/-- The part of the request's text that a message shows: all of it, or what stands before the mark
of the truncation. -/
structure Shows (request message kept : String) : Prop where
  whole_or_cut : (message = request ∧ kept = request) ∨ message = kept ++ TRUNCATION_SUFFIX
  begins : ∃ rest, request = kept ++ rest

/-- The text of a request before the candidate's entries. -/
def candidateLead (input : LogAnalysisInput) : String :=
  "\x7b\"baseline\":" ++ render (entriesJson input.baseline) ++ ",\"candidate\":["

/-- The message shows a part of a candidate log, at its place in the request. -/
def Carries (input : LogAnalysisInput) (message : String) : Prop :=
  ∃ kept text rest, Shows (render (inputJson input)) message kept ∧
    ReachesLog input.candidate text ∧ kept = candidateLead input ++ text ++ rest

/-- The bytes of the entries up to the first character of a log, if a log is not empty. -/
def leadSize : List (Option String × String) → Option Nat
  | [] => none
  | (container, log) :: rest =>
      match log.toList with
      | c :: _ => some ((entryLead container).utf8ByteSize + (escapeChar c).utf8ByteSize)
      | [] => (leadSize rest).map ((render (entryJson (container, log))).utf8ByteSize + 1 + ·)

/-- Whether a request of the input leaves room for a part of the candidate's logs. -/
def LeavesRoom (input : LogAnalysisInput) (limit : Nat) : Prop :=
  (render (inputJson input)).utf8ByteSize ≤ limit ∨
    ∃ size, leadSize input.candidate = some size ∧
      26 + (render (entriesJson input.baseline)).utf8ByteSize + size +
        TRUNCATION_SUFFIX.utf8ByteSize ≤ limit

section Entries

variable {entries before after : List (Option String × String)} {container : Option String}
  {log text : String} {c : Char} {cs : List Char}

theorem leadText_cons (entry : Option String × String) (entries : List (Option String × String)) :
    leadText (entry :: entries) = render (entryJson entry) ++ "," ++ leadText entries := by
  rw [leadText, List.map_cons, String.join_cons]
  rfl

/-- The text of an entry: up to its log, the log character by character, and the end. -/
theorem render_entryJson (container : Option String) (log : String) :
    render (entryJson (container, log)) =
      entryLead container ++ (String.join (log.toList.map escapeChar) ++ "\"]") := by
  rw [← String.toList_inj]
  simp [entryJson, entryLead, render, renderItems, renderString]

theorem renderItems_append (before : List Json) (item : Json) (after : List Json) :
    ∃ rest, renderItems (before ++ item :: after) =
      String.join (before.map fun i => render i ++ ",") ++ (render item ++ rest) := by
  induction before with
  | nil =>
      cases after with
      | nil => exact ⟨"", by simp [renderItems]⟩
      | cons next after =>
          exact ⟨"," ++ renderItems (next :: after), by simp [renderItems, String.append_assoc]⟩
  | cons first before ih =>
      obtain ⟨rest, hrest⟩ := ih
      have hcons : renderItems (first :: (before ++ item :: after)) =
          render first ++ "," ++ renderItems (before ++ item :: after) := by
        cases before <;> rfl
      refine ⟨rest, ?_⟩
      rw [List.map_cons, String.join_cons, List.cons_append, hcons, hrest, String.append_assoc,
        String.append_assoc, String.append_assoc]

/-- What reaches into a log begins the text of the entries. -/
theorem ReachesLog.begins (h : ReachesLog entries text) :
    ∃ rest, renderItems (entries.map entryJson) = text ++ rest := by
  obtain ⟨before, container, log, after, c, cs, rfl, hlog, rfl⟩ := h
  obtain ⟨rest, hrest⟩ := renderItems_append (before.map entryJson) (entryJson (container, log))
    (after.map entryJson)
  refine ⟨String.join (cs.map escapeChar) ++ "\"]" ++ rest, ?_⟩
  rw [List.map_append, List.map_cons, hrest, render_entryJson, hlog, List.map_cons,
    String.join_cons, List.map_map, leadText]
  simp only [String.append_assoc]
  rfl

theorem ReachesLog.cons (entry : Option String × String) (h : ReachesLog entries text) :
    ReachesLog (entry :: entries) (render (entryJson entry) ++ "," ++ text) := by
  obtain ⟨before, container, log, after, c, cs, rfl, hlog, rfl⟩ := h
  refine ⟨entry :: before, container, log, after, c, cs, rfl, hlog, ?_⟩
  simp only [leadText_cons, String.append_assoc]

theorem leadSize_cons (hlog : log.toList = c :: cs) (rest : List (Option String × String)) :
    leadSize ((container, log) :: rest) =
      some ((entryLead container).utf8ByteSize + (escapeChar c).utf8ByteSize) := by
  rw [leadSize, hlog]

theorem leadSize_cons_nil (hlog : log.toList = []) (rest : List (Option String × String)) :
    leadSize ((container, log) :: rest) =
      (leadSize rest).map ((render (entryJson (container, log))).utf8ByteSize + 1 + ·) := by
  rw [leadSize, hlog]

theorem exists_of_leadSize {size : Nat} (h : leadSize entries = some size) :
    ∃ text, ReachesLog entries text ∧ text.utf8ByteSize = size := by
  induction entries generalizing size with
  | nil => cases h
  | cons entry rest ih =>
      obtain ⟨container, log⟩ := entry
      cases hlog : log.toList with
      | nil =>
          rw [leadSize_cons_nil hlog] at h
          obtain ⟨later, hlater, rfl⟩ := Option.map_eq_some_iff.mp h
          obtain ⟨text, hreaches, rfl⟩ := ih hlater
          have hcomma : ",".utf8ByteSize = 1 := rfl
          refine ⟨_, hreaches.cons (container, log), ?_⟩
          rw [String.utf8ByteSize_append, String.utf8ByteSize_append, hcomma]
      | cons c cs =>
          rw [leadSize_cons hlog] at h
          cases h
          refine ⟨leadText [] ++ (entryLead container ++ escapeChar c),
            ⟨[], container, log, rest, c, cs, rfl, hlog, rfl⟩, ?_⟩
          rw [String.utf8ByteSize_append, String.utf8ByteSize_append]
          exact Nat.zero_add _

/-- No text reaches a log earlier than the first one that is not empty. -/
theorem leadSize_le (h : ReachesLog entries text) :
    ∃ size, leadSize entries = some size ∧ size ≤ text.utf8ByteSize := by
  obtain ⟨before, container, log, after, c, cs, rfl, hlog, rfl⟩ := h
  induction before with
  | nil =>
      refine ⟨_, leadSize_cons hlog after, ?_⟩
      rw [String.utf8ByteSize_append, String.utf8ByteSize_append]
      exact Nat.le_add_left _ _
  | cons entry before ih =>
      obtain ⟨earlier, log'⟩ := entry
      obtain ⟨size, hsize, hle⟩ := ih
      have hcomma : ",".utf8ByteSize = 1 := rfl
      rw [leadText_cons, String.append_assoc, String.utf8ByteSize_append,
        String.utf8ByteSize_append, hcomma]
      cases hfirst : log'.toList with
      | nil =>
          refine ⟨_, (leadSize_cons_nil hfirst _).trans (congrArg _ hsize), ?_⟩
          show _ + 1 + size ≤ _
          omega
      | cons d ds =>
          refine ⟨_, leadSize_cons hfirst _, ?_⟩
          have hentry := congrArg String.utf8ByteSize (render_entryJson earlier log')
          rw [hfirst, List.map_cons, String.join_cons, String.utf8ByteSize_append,
            String.utf8ByteSize_append, String.utf8ByteSize_append] at hentry
          omega

theorem exists_leadSize (h : ∃ entry ∈ entries, entry.2 ≠ "") : ∃ size, leadSize entries = some size := by
  obtain ⟨⟨container, log⟩, hmem, hne⟩ := h
  obtain ⟨before, after, rfl⟩ := List.append_of_mem hmem
  cases hlog : log.toList with
  | nil => exact absurd (String.toList_inj.mp hlog) hne
  | cons c cs =>
      obtain ⟨size, hsize, -⟩ := leadSize_le
        ⟨before, container, log, after, c, cs, rfl, hlog, rfl⟩
      exact ⟨size, hsize⟩

end Entries

section Requests

variable {input : LogAnalysisInput} {text : String}

theorem render_inputJson (input : LogAnalysisInput) :
    ∃ rest, render (inputJson input) =
      candidateLead input ++ (renderItems (input.candidate.map entryJson) ++ rest) := by
  refine ⟨"],\"limits\":" ++ render limitsJson ++ "\x7d", ?_⟩
  rw [← String.toList_inj]
  simp [inputJson, candidateLead, render, renderMembers, renderString, escapeChar, entriesJson]

theorem ReachesLog.begins_request (h : ReachesLog input.candidate text) :
    ∃ rest, render (inputJson input) = candidateLead input ++ text ++ rest := by
  obtain ⟨later, hlater⟩ := h.begins
  obtain ⟨rest, hrest⟩ := render_inputJson input
  refine ⟨later ++ rest, ?_⟩
  rw [hrest, hlater]
  simp only [String.append_assoc]

theorem candidateLead_size (input : LogAnalysisInput) :
    (candidateLead input).utf8ByteSize = 26 + (render (entriesJson input.baseline)).utf8ByteSize := by
  have hfirst : "\x7b\"baseline\":".utf8ByteSize = 12 := rfl
  have hsecond : ",\"candidate\":[".utf8ByteSize = 14 := rfl
  rw [candidateLead, String.utf8ByteSize_append, String.utf8ByteSize_append, hfirst, hsecond]
  omega

theorem chatRequest_content (analyzer : NexusLogAnalyzer) (input : LogAnalysisInput) :
    (analyzer.chatRequest input).user.content = analyzer.userMessage input := rfl

theorem userMessage_size_le (analyzer : NexusLogAnalyzer) (input : LogAnalysisInput) :
    (analyzer.userMessage input).utf8ByteSize ≤ analyzer.maxInputBytes :=
  truncateUtf8_size_le _ _

theorem leavesRoom_of_carries {analyzer : NexusLogAnalyzer}
    (h : Carries input (analyzer.userMessage input)) :
    LeavesRoom input analyzer.maxInputBytes := by
  have hsize := userMessage_size_le analyzer input
  obtain ⟨kept, text, rest, hshows, hreaches, rfl⟩ := h
  obtain ⟨size, hlead, hle⟩ := leadSize_le hreaches
  rcases hshows.whole_or_cut with ⟨hwhole, -⟩ | hcut
  · rw [hwhole] at hsize
    exact Or.inl hsize
  · rw [hcut, String.utf8ByteSize_append, String.utf8ByteSize_append,
      String.utf8ByteSize_append, candidateLead_size] at hsize
    exact Or.inr ⟨size, hlead, by omega⟩

theorem carries_whole {analyzer : NexusLogAnalyzer} (hlog : ∃ entry ∈ input.candidate, entry.2 ≠ "")
    (hfits : (render (inputJson input)).utf8ByteSize ≤ analyzer.maxInputBytes) :
    Carries input (analyzer.userMessage input) := by
  obtain ⟨size, hlead⟩ := exists_leadSize hlog
  obtain ⟨text, hreaches, -⟩ := exists_of_leadSize hlead
  obtain ⟨rest, hrest⟩ := hreaches.begins_request
  have hmessage : analyzer.userMessage input = render (inputJson input) := truncateUtf8_of_le hfits
  exact ⟨_, text, rest, ⟨Or.inl ⟨hmessage, rfl⟩, "", String.append_empty.symm⟩, hreaches, hrest⟩

theorem carries_cut {analyzer : NexusLogAnalyzer} {size : Nat}
    (hlead : leadSize input.candidate = some size)
    (hroom : 26 + (render (entriesJson input.baseline)).utf8ByteSize + size +
      TRUNCATION_SUFFIX.utf8ByteSize ≤ analyzer.maxInputBytes)
    (hlong : analyzer.maxInputBytes < (render (inputJson input)).utf8ByteSize) :
    Carries input (analyzer.userMessage input) := by
  obtain ⟨text, hreaches, rfl⟩ := exists_of_leadSize hlead
  obtain ⟨rest, hrest⟩ := hreaches.begins_request
  -- the limit is never so small that the mark is left out
  have hsuffix : truncationMark analyzer.maxInputBytes = TRUNCATION_SUFFIX := if_pos (by omega)
  have hcut := truncateUtf8_of_lt hlong
  have hprefix := cut_longestPrefix (render (inputJson input)) analyzer.maxInputBytes
  rw [hsuffix] at hcut hprefix
  have hsize : (candidateLead input ++ text).utf8ByteSize ≤
      analyzer.maxInputBytes - TRUNCATION_SUFFIX.utf8ByteSize := by
    rw [String.utf8ByteSize_append, candidateLead_size]
    omega
  obtain ⟨more, hmore⟩ := hprefix.of_begins hrest hsize
  exact ⟨_, text, more, ⟨Or.inr hcut, hprefix.begins⟩, hreaches, hmore⟩

/-- For every analyzer and every input whose candidate side has a log that is not empty: the
message to the model is within the limit and shows a part of the candidate's logs exactly if the
whole request fits, or what comes before the first character of such a log leaves room for it and
for the mark of the truncation. -/
theorem userMessage_carries_iff (analyzer : NexusLogAnalyzer) (input : LogAnalysisInput)
    (hlog : ∃ entry ∈ input.candidate, entry.2 ≠ "") :
    ((analyzer.chatRequest input).user.content.utf8ByteSize ≤ analyzer.maxInputBytes ∧
        Carries input (analyzer.chatRequest input).user.content) ↔
      LeavesRoom input analyzer.maxInputBytes := by
  rw [chatRequest_content]
  constructor
  · rintro ⟨-, hcarries⟩
    exact leavesRoom_of_carries hcarries
  · intro hroom
    refine ⟨userMessage_size_le analyzer input, ?_⟩
    by_cases hfits : (render (inputJson input)).utf8ByteSize ≤ analyzer.maxInputBytes
    · exact carries_whole hlog hfits
    · obtain ⟨size, hlead, hle⟩ := hroom.resolve_left hfits
      exact carries_cut hlead hle (Nat.lt_of_not_le hfits)

end Requests

/-! ## A baseline that fills the request -/

theorem one_le_escapeChar_size (c : Char) : 1 ≤ (escapeChar c).utf8ByteSize := by
  unfold escapeChar
  split
  case h_6 =>
    split
    · decide
    · split
      · decide
      · split
        · have hbackslash := Char.utf8Size_pos '\\'
          rw [String.utf8ByteSize_ofList, String.utf8Len_cons]
          omega
        · rw [String.utf8ByteSize_singleton]
          exact Char.utf8Size_pos c
  all_goals decide

theorem length_le_escaped_size (l : List Char) :
    l.length ≤ (String.join (l.map escapeChar)).utf8ByteSize := by
  induction l with
  | nil => exact Nat.zero_le _
  | cons c l ih =>
      have hc := one_le_escapeChar_size c
      rw [List.map_cons, String.join_cons, String.utf8ByteSize_append, List.length_cons]
      omega

theorem length_le_entriesJson_size (container : Option String) (log : String) :
    log.toList.length ≤ (render (entriesJson [(container, log)])).utf8ByteSize := by
  have hrender : render (entriesJson [(container, log)]) =
      "[" ++ render (entryJson (container, log)) ++ "]" := rfl
  have hlog := length_le_escaped_size log.toList
  rw [hrender, render_entryJson, String.utf8ByteSize_append, String.utf8ByteSize_append,
    String.utf8ByteSize_append, String.utf8ByteSize_append]
  omega

/-- A log without whitespace and digits is kept as it is. -/
theorem redactAndBound_of_letters {ext : Externals} {log : List Char} {limit : Nat} (hne : log ≠ [])
    (hpatterns : ext.redactPatterns (String.ofList log) = String.ofList log)
    (hletters : ∀ c ∈ log, isWhitespace c = false ∧ c.isDigit = false)
    (hsize : (String.ofList log).utf8ByteSize ≤ limit) :
    redactAndBound ext (String.ofList log) limit = String.ofList log := by
  have hplain : looksSecret log = false := by
    rw [Bool.eq_false_iff]
    intro hsecret
    obtain ⟨c, hc, hdigit⟩ := ((looksSecret_iff log).mp hsecret).2.2.1
    rw [(hletters c hc).2] at hdigit
    cases hdigit
  have hchars := redactChars_word (l := []) hne (fun c hc => (hletters c hc).1) (fun _ h => nomatch h)
  have hkept : redactLongTokens (String.ofList log) = String.ofList log := by
    rw [redactLongTokens_eq, String.toList_ofList, ← List.append_nil log, hchars,
      redactToken_of_looksSecret_false hplain]
    rfl
  rw [redactAndBound, hpatterns, hkept]
  exact truncateUtf8_of_le hsize

/-- A baseline log that has at least as many characters as the request may have bytes leaves nothing
of the candidate. -/
theorem not_carries_of_long {analyzer : NexusLogAnalyzer} {log : String} {container : Option String}
    {candidate : List (Option String × String)}
    (hlong : analyzer.maxInputBytes ≤ log.toList.length) :
    ¬Carries ⟨[(container, log)], candidate⟩
      (analyzer.userMessage ⟨[(container, log)], candidate⟩) := by
  intro hcarries
  have hbaseline := length_le_entriesJson_size container log
  rcases leavesRoom_of_carries hcarries with hwhole | ⟨size, -, hlead⟩
  · obtain ⟨rest, hrest⟩ := render_inputJson ⟨[(container, log)], candidate⟩
    rw [hrest, String.utf8ByteSize_append, candidateLead_size] at hwhole
    dsimp only at hwhole
    omega
  · dsimp only at hlead
    omega

/-- Patterns that find nothing. -/
def plainExternals : Externals := ⟨id, fun _ => "1970-01-01T00:00:00Z"⟩

/-- A side that was captured with one log. -/
def captured (log : String) : CaptureEvidence where
  installStatus := .passed
  installDurationMs := 0
  preview := none
  details := none
  stabilization := {
    passed := true
    stableSamples := 1
    durationMs := 0
    samples := []
    lastNonRunningStates := []
  }
  logs := some { entries := [{ container := some "app", text := log }] }
  logError := none
  startedAt := "1970-01-01T00:00:00Z"
  finishedAt := "1970-01-01T00:00:00Z"

def panicLog : String := String.ofList ['p', 'a', 'n', 'i', 'c']

theorem length_letters (n : Nat) : (String.ofList (List.replicate n 'x')).toList.length = n := by
  rw [String.toList_ofList, List.length_replicate]

def longLog : String := String.ofList (List.replicate 1100 'x')

def smallestAnalyzer : NexusLogAnalyzer where
  apiKey := "key"
  model := "model"
  timeout := .ofMillis 300000
  maxInputBytes := 1024
  bounds := by decide

theorem utf8Len_replicate (n : Nat) : String.utf8Len (List.replicate n 'x') = n := by
  have hsize : Char.utf8Size 'x' = 1 := rfl
  induction n with
  | zero => rfl
  | succ n ih => rw [List.replicate_succ, String.utf8Len_cons, ih, hsize]

theorem redactAndBound_longLog :
    redactAndBound plainExternals longLog (16 * 1024) = longLog := by
  have hne : List.replicate 1100 'x' ≠ [] := List.cons_ne_nil _ _
  refine redactAndBound_of_letters hne rfl ?_ ?_
  · intro c hc
    rw [List.eq_of_mem_replicate hc]
    exact ⟨rfl, rfl⟩
  · rw [String.utf8ByteSize_ofList, utf8Len_replicate]
    omega

theorem redactAndBound_panicLog :
    redactAndBound plainExternals panicLog (16 * 1024) = panicLog := by
  have hsize : panicLog.utf8ByteSize = 5 := rfl
  refine redactAndBound_of_letters (List.cons_ne_nil _ _) rfl ?_ ?_
  · simp only [List.forall_mem_cons]
    exact ⟨⟨rfl, rfl⟩, ⟨rfl, rfl⟩, ⟨rfl, rfl⟩, ⟨rfl, rfl⟩, ⟨rfl, rfl⟩,
      fun _ h => absurd h List.not_mem_nil⟩
  · show panicLog.utf8ByteSize ≤ 16 * 1024
    omega

/-- What the controller builds from a long baseline log and a panic of the candidate. -/
def hidingInput : LogAnalysisInput :=
  Runner.analysisInput plainExternals (captured longLog) (captured panicLog)

/-- A baseline log of 1100 characters fills the smallest request: the panic of the candidate is not
shown. -/
theorem long_baseline_hides_candidate :
    hidingInput.candidate = [(some "app", "panic")] ∧
      ¬Carries hidingInput (smallestAnalyzer.chatRequest hidingInput).user.content := by
  have hinput : hidingInput = ⟨[(some "app", longLog)], [(some "app", panicLog)]⟩ := by
    show LogAnalysisInput.mk [(some "app", redactAndBound plainExternals longLog (16 * 1024))]
      [(some "app", redactAndBound plainExternals panicLog (16 * 1024))] = _
    rw [redactAndBound_longLog, redactAndBound_panicLog]
  have hlength : longLog.toList.length = 1100 := length_letters 1100
  have hlimit : smallestAnalyzer.maxInputBytes = 1024 := rfl
  rw [hinput, chatRequest_content]
  exact ⟨rfl, not_carries_of_long (by omega)⟩

theorem short_logs_are_carried :
    (∃ entry ∈ [(some "app", "panic")], entry.2 ≠ "") ∧
      Carries ⟨[(some "app", "started")], [(some "app", "panic")]⟩
        (smallestAnalyzer.chatRequest
          ⟨[(some "app", "started")], [(some "app", "panic")]⟩).user.content := by
  have hlog : ∃ entry ∈ [(some "app", "panic")], entry.2 ≠ "" :=
    ⟨(some "app", "panic"), List.mem_singleton_self _, by decide⟩
  have hlead : leadSize [(some "app", "panic")] = some 9 := rfl
  have hroom : 26 + (render (entriesJson [(some "app", "started")])).utf8ByteSize + 9 +
      TRUNCATION_SUFFIX.utf8ByteSize ≤ 1024 := by decide
  exact ⟨hlog, ((userMessage_carries_iff smallestAnalyzer
    ⟨[(some "app", "started")], [(some "app", "panic")]⟩ hlog).mpr
      (Or.inr ⟨9, hlead, hroom⟩)).2⟩

end PackageHarness
