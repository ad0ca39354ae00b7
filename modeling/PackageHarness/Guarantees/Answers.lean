/-
# PackageHarness.Guarantees.Answers — which wrapped answers of the model are recovered.

Three cuts are made before the JSON parser sees an answer: behind the last reasoning tag, at its
outermost braces, and at the whitespace around it. None of them touches the object itself, unless
one of its strings quotes the tag: then the answer is cut inside that string, and what is left is
no longer a balanced text.
-/
import PackageHarness.Analysis.Nexus
import PackageHarness.Sequence.Brackets
import PackageHarness.System.Scenario

namespace PackageHarness

open Sequence Nexus

/-! ## The printed text is balanced -/

namespace Json

theorem mark_of_isDigit {c : Char} (h : c.isDigit = true) : mark c = .plain := by
  have hne : ∀ special : Char, special.isDigit = false → c ≠ special := by
    rintro special hspecial rfl
    rw [h] at hspecial
    cases hspecial
  unfold mark
  rw [if_neg (hne _ rfl), if_neg (hne _ rfl), if_neg (not_or.mpr ⟨hne _ rfl, hne _ rfl⟩),
    if_neg (not_or.mpr ⟨hne _ rfl, hne _ rfl⟩)]

theorem mark_hexDigit : ∀ n, n < 16 → mark (hexDigit n) = .plain := by
  decide

/-- An escaped character neither ends its literal nor leaves an escape open. -/
theorem escapeChar_literal (c : Char) :
    (Reading.literal 0).after (escapeChar c).toList = .literal 0 := by
  unfold escapeChar
  split
  · rfl
  · rfl
  · rfl
  · rfl
  · rfl
  · next hquote hbackslash _ _ _ =>
      split
      · rfl
      · split
        · rfl
        · split
          · next hcontrol =>
              have hhigh := mark_hexDigit (c.toNat / 16) (by omega)
              have hlow := mark_hexDigit (c.toNat % 16) (by omega)
              rw [String.toList_ofList]
              simp only [Reading.after, List.foldl_cons, List.foldl_nil, hhigh, hlow]
              rfl
          · rw [String.toList_singleton, Reading.after_cons, mark, if_neg hquote,
              if_neg hbackslash]
            split
            · rfl
            · split <;> rfl

theorem renderString_balanced (s : String) : WellBracketed (renderString s).toList := by
  have hinside : ∀ cs : List Char,
      (Reading.literal 0).after (cs.flatMap fun c => (escapeChar c).toList) = .literal 0 := by
    intro cs
    induction cs with
    | nil => rfl
    | cons c cs ih =>
        rw [List.flatMap_cons, Reading.after_append, escapeChar_literal]
        exact ih
  rw [renderString, String.toList_append, String.toList_append, String.toList_join,
    List.flatMap_map, WellBracketed, Reading.after_append, Reading.after_append]
  show ((Reading.literal 0).after _).after _ = _
  rw [hinside]
  rfl

theorem comma_balanced : WellBracketed ",".toList := rfl

theorem colon_balanced : WellBracketed ":".toList := rfl

theorem renderMembers_cons {name : String} {value : Json} {members : List (String × Json)}
    (hvalue : WellBracketed (render value).toList)
    (hmembers : WellBracketed (renderMembers members).toList) :
    WellBracketed (renderMembers ((name, value) :: members)).toList := by
  have hname := renderString_balanced name
  cases members with
  | nil =>
      rw [renderMembers, String.toList_append, String.toList_append]
      exact (hname.append colon_balanced).append hvalue
  | cons second members =>
      rw [renderMembers, String.toList_append, String.toList_append, String.toList_append,
        String.toList_append]
      · exact (((hname.append colon_balanced).append hvalue).append comma_balanced).append hmembers
      · intro hsingle
        cases hsingle

/-- Every JSON text is balanced. -/
theorem render_balanced (json : Json) : WellBracketed (render json).toList := by
  -- on the nesting: values, lists of items, lists of members, and members
  refine @Json.rec (fun json => WellBracketed (render json).toList)
    (fun items => WellBracketed (renderItems items).toList)
    (fun members => WellBracketed (renderMembers members).toList)
    (fun member => WellBracketed (render member.2).toList)
    ?null ?bool ?number ?string ?array ?object ?noItems ?items ?noMembers ?members ?member json
  case null => exact rfl
  case bool =>
    intro value
    cases value <;> rfl
  case number =>
    intro value
    have hdigits : (render (.number value)).toList = Nat.toDigits 10 value := by
      show (Nat.repr value).toList = _
      rw [Nat.repr, String.toList_ofList]
    rw [hdigits]
    refine WellBracketed.of_plain fun c hc => ?_
    exact mark_of_isDigit (Nat.isDigit_of_mem_toDigits (by omega) (by omega) hc)
  case string => exact renderString_balanced
  case array =>
    intro items hitems
    rw [render, String.toList_append, String.toList_append]
    exact WellBracketed.bracketed rfl rfl hitems
  case object =>
    intro members hmembers
    rw [render, String.toList_append, String.toList_append]
    exact WellBracketed.bracketed rfl rfl hmembers
  case noItems => exact rfl
  case items =>
    intro item items hitem hitems
    cases items with
    | nil => exact hitem
    | cons second items =>
        rw [renderItems, String.toList_append, String.toList_append]
        · exact (hitem.append comma_balanced).append hitems
        · intro hsingle
          cases hsingle
  case noMembers => exact rfl
  case members => exact fun member members hvalue hmembers => renderMembers_cons hvalue hmembers
  case member => exact fun name value hvalue => hvalue

theorem renderMembers_balanced (members : List (String × Json)) :
    WellBracketed (renderMembers members).toList := by
  induction members with
  | nil => rfl
  | cons member members ih => exact renderMembers_cons (render_balanced member.2) ih

end Json

def LogAnalysisResult.jsonText (analysis : LogAnalysisResult) : String := analysis.toJson.render

/-- The text is an object, with balanced members between its braces. -/
theorem LogAnalysisResult.jsonText_braces (analysis : LogAnalysisResult) :
    ∃ body, analysis.jsonText.toList = '\x7b' :: (body ++ ['\x7d']) ∧ WellBracketed body := by
  obtain ⟨members, hmembers⟩ : ∃ members, analysis.toJson = .object members := ⟨_, rfl⟩
  refine ⟨(Json.renderMembers members).toList, ?_, Json.renderMembers_balanced members⟩
  rw [jsonText, hmembers, Json.render, String.toList_append, String.toList_append]
  rfl

theorem LogAnalysisResult.summary_in_jsonText (analysis : LogAnalysisResult) :
    (Json.renderString analysis.summary).toList <:+: analysis.jsonText.toList := by
  rw [← Json.render, jsonText, toJson]
  refine Json.render_member "summary" ?_
  refine List.mem_append_left _ (List.mem_append_left _ ?_)
  exact .tail _ (.tail _ (.head _))

/-! ## What the parser is relied on for -/

/-- What `parseAnalysis` relies on its JSON parser for, at one result. -/
structure ReadsBack (fromStr : String → Except String LogAnalysisResult)
    (analysis : LogAnalysisResult) : Prop where
  /-- It reads back what is printed. -/
  parsesBack : fromStr analysis.jsonText = .ok analysis
  /-- It accepts complete JSON values only. -/
  balanced : ∀ text result, fromStr text = .ok result → WellBracketed text.toList
  /-- Text around the object never makes it another answer: fields that a type does not have are
  denied, and nothing may follow a value. -/
  unambiguous : ∀ before behind result, '\x7b' ∉ before.toList →
    fromStr (before ++ analysis.jsonText ++ behind) = .ok result → result = analysis

/-- The tag occurs in the text. -/
def HasThinkEnd (text : String) : Prop := THINK_END.toList <:+: text.toList

instance (text : String) : Decidable (HasThinkEnd text) :=
  inferInstanceAs (Decidable (_ <:+: _))

/-- The result is recovered from its text, from the text in prose, and from the text in prose after
a reasoning block. -/
structure Recovered (ext : Externals) (fromStr : String → Except String LogAnalysisResult)
    (analysis : LogAnalysisResult) (before behind reasoning : String) : Prop where
  bare : parseAnalysis ext fromStr analysis.jsonText = .ok analysis
  wrapped : parseAnalysis ext fromStr (before ++ analysis.jsonText ++ behind) = .ok analysis
  reasoned : parseAnalysis ext fromStr
    ("<think>" ++ reasoning ++ THINK_END ++ (before ++ analysis.jsonText ++ behind)) = .ok analysis

variable {ext : Externals} {fromStr : String → Except String LogAnalysisResult}
  {analysis : LogAnalysisResult} {before behind : String}

theorem thinkEnd_cons : THINK_END.toList = '<' :: "/think>".toList := rfl

/-- Whatever the tags leave of the content, an object in prose is recovered from it. -/
theorem parseAnalysis_of_content (h : ReadsBack fromStr analysis)
    (hbefore : '\x7b' ∉ before.toList) (hbehind : '\x7d' ∉ behind.toList) {content : String}
    (hcontent : (afterLast THINK_END.toList content.toList).getD content.toList =
      (before ++ analysis.jsonText ++ behind).toList) :
    parseAnalysis ext fromStr content = .ok analysis := by
  obtain ⟨body, hbody, _⟩ := analysis.jsonText_braces
  have hspace : '\x7b' ∉ before.toList.dropWhile Redaction.isWhitespace :=
    fun hmem => hbefore ((List.dropWhile_suffix _).subset hmem)
  have hspace' : '\x7d' ∉ behind.toList.rdropWhile Redaction.isWhitespace :=
    fun hmem => hbehind ((List.rdropWhile_prefix _ _).subset hmem)
  have htrimmed : trim ((afterLast THINK_END.toList content.toList).getD content.toList) =
      before.toList.dropWhile Redaction.isWhitespace ++ (analysis.jsonText.toList ++
        behind.toList.rdropWhile Redaction.isWhitespace) := by
    rw [hcontent, String.toList_append, String.toList_append, List.append_assoc, hbody]
    exact trim_wrapped rfl rfl
  have htext : String.ofList (before.toList.dropWhile Redaction.isWhitespace ++
      (analysis.jsonText.toList ++ behind.toList.rdropWhile Redaction.isWhitespace)) =
      String.ofList (before.toList.dropWhile Redaction.isWhitespace) ++ analysis.jsonText ++
        String.ofList (behind.toList.rdropWhile Redaction.isWhitespace) := by
    refine String.toList_inj.mp ?_
    simp
  rw [parseAnalysis, htrimmed, htext]
  cases hstrict : fromStr (String.ofList (before.toList.dropWhile Redaction.isWhitespace) ++
      analysis.jsonText ++ String.ofList (behind.toList.rdropWhile Redaction.isWhitespace)) with
  | ok result =>
      have hsame := h.unambiguous _ _ result (by rwa [String.toList_ofList]) hstrict
      rw [hsame]
  | error error =>
      have hinside : embedded (before.toList.dropWhile Redaction.isWhitespace ++
          (analysis.jsonText.toList ++ behind.toList.rdropWhile Redaction.isWhitespace)) =
          some analysis.jsonText.toList := by
        rw [hbody]
        exact embedded_wrapped hspace hspace'
      dsimp only
      rw [hinside, Option.map_some, String.ofList_toList, h.parsesBack]

/-- A tag that is neither in the object nor around it is nowhere. -/
theorem hasThinkEnd_wrapped (h : HasThinkEnd (before ++ analysis.jsonText ++ behind)) :
    HasThinkEnd before ∨ HasThinkEnd analysis.jsonText ∨ HasThinkEnd behind := by
  obtain ⟨body, hbody, _⟩ := analysis.jsonText_braces
  rw [HasThinkEnd, String.toList_append, String.toList_append, hbody, List.append_assoc,
    List.cons_append, List.append_assoc] at h
  rcases infix_of_separated (by decide) h with hleft | hright
  · exact Or.inl hleft
  · rcases infix_of_separated (by decide) hright with hinside | hbehind
    · refine Or.inr (Or.inl (hinside.trans ?_))
      rw [hbody]
      exact ⟨['\x7b'], ['\x7d'], rfl⟩
    · exact Or.inr (Or.inr hbehind)

/-- What is left of an object when its beginning is cut off is not accepted. -/
theorem rejects_cut (h : ∀ text result, fromStr text = .ok result → WellBracketed text.toList)
    {cut rest : List Char} (hcut : analysis.jsonText.toList = cut ++ rest) (hne : cut ≠ [])
    (hrest : rest ≠ []) : ∃ error, fromStr (String.ofList rest) = .error error := by
  obtain ⟨body, hbody, hbalanced⟩ := analysis.jsonText_braces
  cases hparsed : fromStr (String.ofList rest) with
  | error error => exact ⟨error, rfl⟩
  | ok result =>
      have hwhole := h _ _ hparsed
      rw [String.toList_ofList] at hwhole
      exact absurd hwhole (hbalanced.cut rfl (hbody.symm.trans hcut) hne hrest)

/-- A tag inside the object is where its text is cut, and no parser accepts what is left. -/
theorem parseAnalysis_of_thinkEnd (h : ∀ text result, fromStr text = .ok result →
    WellBracketed text.toList) (htag : HasThinkEnd analysis.jsonText) (result : LogAnalysisResult) :
    parseAnalysis ext fromStr analysis.jsonText ≠ .ok result := by
  obtain ⟨body, hbody, _⟩ := analysis.jsonText_braces
  obtain ⟨answer, hanswer⟩ : ∃ answer,
      afterLast THINK_END.toList analysis.jsonText.toList = some answer := by
    refine Option.ne_none_iff_exists'.mp fun hnone => ?_
    exact (afterLast_eq_none_iff (by decide)).mp hnone htag
  obtain ⟨start, hstart⟩ := eq_of_afterLast hanswer
  -- the text goes on behind the tag, up to its closing brace
  obtain ⟨init, rfl⟩ : ∃ init, answer = init ++ ['\x7d'] := by
    rcases List.eq_nil_or_concat answer with rfl | ⟨init, last, rfl⟩
    · have hends : '\x7b' :: body ++ ['\x7d'] = start ++ "</think".toList ++ ['>'] := by
        rw [List.cons_append, ← hbody, hstart]
        simp [THINK_END]
      have hlast := (List.append_inj' hends rfl).2
      cases hlast
    · have hends : '\x7b' :: body ++ ['\x7d'] = start ++ (THINK_END.toList ++ init) ++ [last] := by
        rw [List.cons_append, ← hbody, hstart]
        simp
      have hlast := (List.append_inj' hends rfl).2
      exact ⟨init, by rw [List.concat_eq_append, hlast]⟩
  rw [parseAnalysis, hanswer, Option.getD_some, trim_concat rfl]
  have hcontent : analysis.jsonText.toList =
      (start ++ (THINK_END.toList ++ init.takeWhile Redaction.isWhitespace)) ++
        (init.dropWhile Redaction.isWhitespace ++ ['\x7d']) := by
    have hsplit : init.takeWhile Redaction.isWhitespace ++
        (init.dropWhile Redaction.isWhitespace ++ ['\x7d']) = init ++ ['\x7d'] := by
      rw [← List.append_assoc, List.takeWhile_append_dropWhile]
    rw [hstart, List.append_assoc, List.append_assoc, hsplit]
  have hne : start ++ (THINK_END.toList ++ init.takeWhile Redaction.isWhitespace) ≠ [] := by
    simp [THINK_END]
  obtain ⟨error, hrejected⟩ := rejects_cut h hcontent hne (by simp)
  rw [hrejected]
  dsimp only
  cases hinside : embedded (init.dropWhile Redaction.isWhitespace ++ ['\x7d']) with
  | none => exact nofun
  | some text =>
      obtain ⟨cut, hcut, htext⟩ := suffix_of_embedded hinside
      rw [hcut, ← List.append_assoc] at hcontent
      obtain ⟨error', hrejected'⟩ :=
        rejects_cut h hcontent (List.append_ne_nil_of_left_ne_nil hne cut) htext
      rw [Option.map_some, hrejected']
      exact nofun

/-- An answer is recovered from every wrapping exactly if its text does not quote the tag that
closes a reasoning block. -/
theorem parseAnalysis_recovers_iff (ext : Externals) (h : ReadsBack fromStr analysis)
    (hbefore : '\x7b' ∉ before.toList) (hbehind : '\x7d' ∉ behind.toList)
    (htagless : ¬ HasThinkEnd before) (htagless' : ¬ HasThinkEnd behind) (reasoning : String) :
    Recovered ext fromStr analysis before behind reasoning ↔
      ¬ HasThinkEnd analysis.jsonText := by
  constructor
  · exact fun hrecovered htag => parseAnalysis_of_thinkEnd h.balanced htag analysis hrecovered.bare
  · intro hnone
    have hwhole : ¬ HasThinkEnd (before ++ analysis.jsonText ++ behind) := by
      intro htag
      rcases hasThinkEnd_wrapped htag with hin | hin | hin
      · exact htagless hin
      · exact hnone hin
      · exact htagless' hin
    have hsilent : ∀ {text : String}, ¬ HasThinkEnd text →
        (afterLast THINK_END.toList text.toList).getD text.toList = text.toList := by
      intro text htext
      have habsent : afterLast THINK_END.toList text.toList = none :=
        (afterLast_eq_none_iff (by rw [thinkEnd_cons]; exact List.cons_ne_nil _ _)).mpr htext
      rw [habsent]
      rfl
    refine ⟨?_, parseAnalysis_of_content h hbefore hbehind (hsilent hwhole), ?_⟩
    · refine @parseAnalysis_of_content _ _ _ "" "" h nofun nofun _ ?_
      rw [hsilent hnone]
      simp
    · refine parseAnalysis_of_content h hbefore hbehind ?_
      have hcut : afterLast THINK_END.toList (THINK_END.toList ++
          (before ++ analysis.jsonText ++ behind).toList) =
          some (before ++ analysis.jsonText ++ behind).toList := by
        rw [thinkEnd_cons]
        exact afterLast_self (by decide) hwhole
      have hlast := afterLast_append hcut ("<think>" ++ reasoning).toList
      rw [String.toList_append, String.toList_append, List.append_assoc, hlast]
      rfl

namespace Sample

/-- A clean analysis with the given summary. -/
def cleanAnalysis (summary : String) : LogAnalysisResult where
  analyzer := .nexus
  status := .clean
  summary := summary
  baseline := ⟨.clean, ""⟩
  candidate := ⟨.clean, ""⟩
  newFindings := []
  analyzerErrors := []
  components := []

/-- A parser that knows the text of one result. -/
def knows (analysis : LogAnalysisResult) (text : String) : Except String LogAnalysisResult :=
  if text = analysis.jsonText then .ok analysis else .error "expected value at line 1 column 1"

theorem knows_readsBack (analysis : LogAnalysisResult) : ReadsBack (knows analysis) analysis := by
  have honly : ∀ text result, knows analysis text = .ok result →
      text = analysis.jsonText ∧ result = analysis := by
    intro text result hread
    unfold knows at hread
    split at hread
    · next hsame =>
        cases hread
        exact ⟨hsame, rfl⟩
    · cases hread
  refine ⟨if_pos rfl, ?_, ?_⟩
  · intro text result hread
    rw [(honly text result hread).1]
    exact Json.render_balanced _
  · intro before behind result _ hread
    exact (honly _ _ hread).2

end Sample

set_option maxRecDepth 4000 in
/-- A reasoning model with a clean result, in a Markdown fence. -/
theorem fenced_answer_is_recovered :
    Recovered Sample.ext (Sample.knows (Sample.cleanAnalysis "no change"))
      (Sample.cleanAnalysis "no change") "```json\n" "\n```" "status \x7bclean|suspicious\x7d" :=
  (parseAnalysis_recovers_iff Sample.ext (Sample.knows_readsBack _) (by decide) (by decide)
    (by decide) (by decide) _).mpr (by decide)

/-- An analysis that quotes the tag from a log is refused by every parser, and one exists. -/
theorem quoted_tag_loses_the_answer :
    (∀ ext fromStr, ReadsBack fromStr (Sample.cleanAnalysis "logged </think>") →
      parseAnalysis ext fromStr (Sample.cleanAnalysis "logged </think>").jsonText ≠
        .ok (Sample.cleanAnalysis "logged </think>")) ∧
      ∃ fromStr, ReadsBack fromStr (Sample.cleanAnalysis "logged </think>") := by
  refine ⟨?_, _, Sample.knows_readsBack _⟩
  intro ext fromStr hreads
  have hquoted : HasThinkEnd (Json.renderString "logged </think>") := by decide
  exact parseAnalysis_of_thinkEnd hreads.balanced
    (hquoted.trans (Sample.cleanAnalysis _).summary_in_jsonText) _

end PackageHarness
