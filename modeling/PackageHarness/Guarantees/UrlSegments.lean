/-
# PackageHarness.Guarantees.UrlSegments — identifiers as segments of a URL.

The checks of job ids, worker ids and repositories admit letters, digits, dots, underscores and
hyphens, so none of them can close a segment or be encoded. Two accepted texts are dot segments
nevertheless: with an identifier `.` or `..` the URL leads somewhere else, and with every other
identifier the segments are the ones that were written.
-/
import PackageHarness.Coordinator.Endpoints

namespace PackageHarness

open UrlPath Validation

/-! ## Identifiers -/

section Identifiers

variable {c : Char} {s : Segment}

theorem isPlain_of_isAlphanum (h : c.isAlphanum = true) : IsPlain c := by
  have hrange := Text.isAlphanum_iff.mp h
  have hne : ∀ d : Char, d.isAlphanum = false → c ≠ d := by
    rintro d hd rfl
    rw [h] at hd
    cases hd
  refine ⟨hne _ rfl, hne _ rfl, hne _ rfl, hne _ rfl, ?_⟩
  rw [inPathSet, Bool.or_eq_false_iff, Bool.or_eq_false_iff, decide_eq_false_iff_not,
    decide_eq_false_iff_not, List.contains_eq_mem, decide_eq_false_iff_not]
  refine ⟨⟨by omega, by omega⟩, ?_⟩
  simp only [List.mem_cons, List.not_mem_nil, or_false]
  omega

theorem isPlain_of_isIdentifierChar (h : isIdentifierChar c = true) : IsPlain c := by
  rw [isIdentifierChar, Bool.or_eq_true] at h
  rcases h with halnum | hmark
  · exact isPlain_of_isAlphanum halnum
  · have hmem : c = '.' ∨ c = '_' ∨ c = '-' := by simpa using hmark
    rcases hmem with rfl | rfl | rfl <;> decide

/-- The identifiers that are not taken as they stand. -/
def dotSegments : List String := [".", ".."]

/-- A text of identifier characters, as every accepted identifier is. -/
def IsIdentifier (s : Segment) : Prop := ∀ c ∈ s, isIdentifierChar c = true

theorem IsIdentifier.plain (h : IsIdentifier s) : ∀ c ∈ s, IsPlain c :=
  fun c hc => isPlain_of_isIdentifierChar (h c hc)

theorem isIdentifier_of_all (h : s.all isIdentifierChar = true) : IsIdentifier s :=
  List.all_eq_true.mp h

theorem isIdentifier_of_isAlphanum (h : ∀ c ∈ s, c.isAlphanum = true) : IsIdentifier s := by
  intro c hc
  rw [isIdentifierChar, h c hc, Bool.true_or]

theorem isLiteral_iff_not_dotSegment {value : String} (h : IsIdentifier value.toList) :
    IsLiteral value.toList ↔ value ∉ dotSegments := by
  have hpercent : '%' ∉ value.toList := by
    intro hmem
    exact absurd (h '%' hmem) (by decide)
  have hne : ∀ t : String, value.toList ≠ t.toList ↔ value ≠ t := fun t => String.toList_inj.not
  rw [isLiteral_iff hpercent, dotSegments, List.mem_cons, List.mem_singleton, not_or]
  exact and_congr (hne ".") (hne "..")

theorem isLiteral_of_isAlphanum (h : ∀ c ∈ s, c.isAlphanum = true) : IsLiteral s := by
  have hnot : ∀ c : Char, c.isAlphanum = false → c ∉ s := by
    intro c hc hmem
    rw [h c hmem] at hc
    cases hc
  rw [isLiteral_iff (hnot '%' rfl)]
  constructor
  · rintro rfl
    exact hnot '.' rfl List.mem_cons_self
  · rintro rfl
    exact hnot '.' rfl List.mem_cons_self

theorem afterLead_append (lead : String) (rest : List Char) :
    afterLead lead (lead.toList ++ rest) = some rest := by
  rw [afterLead, if_pos (List.isPrefixOf_iff_prefix.mpr (List.prefix_append _ _)),
    ← String.length_toList, List.drop_left]

end Identifiers

/-! ## The written segments -/

def jobsSegments : List Segment := ["v1".toList, "package-harness".toList, "jobs".toList]

def jobSegments (run : RunId) (action : JobAction) : List Segment :=
  jobsSegments ++ [run.value.toList, action.toText.toList]

def lostJobSegments (worker : String) : List Segment :=
  ["v1".toList, "package-harness".toList, "workers".toList, worker.toList, "lost-job".toList]

def repositorySegments (source : RunSource) : List Segment := source.repository.toList.splitOn '/'

def pullSegments (numbers : NumberFormat) (source : RunSource) : List Segment :=
  repositorySegments source ++ ["pull".toList, (numbers.print source.pullRequest).toList]

def commitSegments (source : RunSource) : List Segment :=
  repositorySegments source ++ ["commit".toList, source.headSha.toList]

section Written

variable {run : RunId} {action : JobAction} {client : CoordinatorClient} {numbers : NumberFormat}
  {source : RunSource}

theorem jobPath_segments (run : RunId) (action : JobAction) :
    (jobPath run action).toList = ['/'].intercalate (jobSegments run action) := by
  have htext : (jobPath run action).toList = "v1/package-harness/jobs/".toList ++ run.value.toList ++
      "/".toList ++ action.toText.toList := by
    unfold jobPath
    rw [String.toList_append, String.toList_append, String.toList_append]
    rfl
  have hlead : "v1/package-harness/jobs/".toList =
      "v1".toList ++ '/' :: ("package-harness".toList ++ '/' :: ("jobs".toList ++ ['/'])) := by
    decide
  have hslash : "/".toList = ['/'] := rfl
  rw [htext, hlead, hslash, jobSegments, jobsSegments, List.cons_append, List.cons_append,
    List.cons_append, List.nil_append, List.intercalate_cons_cons, List.intercalate_cons_cons,
    List.intercalate_cons_cons, List.intercalate_cons_cons, List.intercalate_singleton]
  simp only [List.append_assoc, List.cons_append, List.nil_append]

theorem lostJobPath_segments (client : CoordinatorClient) :
    client.lostJobPath.toList = ['/'].intercalate (lostJobSegments client.workerId) := by
  have htext : client.lostJobPath.toList = "v1/package-harness/workers/".toList ++
      client.workerId.toList ++ "/lost-job".toList := by
    unfold CoordinatorClient.lostJobPath
    rw [String.toList_append, String.toList_append]
    rfl
  have hlead : "v1/package-harness/workers/".toList =
      "v1".toList ++ '/' :: ("package-harness".toList ++ '/' :: ("workers".toList ++ ['/'])) := by
    decide
  have htail : "/lost-job".toList = '/' :: "lost-job".toList := by decide
  rw [htext, hlead, htail, lostJobSegments, List.intercalate_cons_cons, List.intercalate_cons_cons,
    List.intercalate_cons_cons, List.intercalate_cons_cons, List.intercalate_singleton]
  simp only [List.append_assoc, List.cons_append, List.nil_append]

theorem githubPath_link (rest : String) :
    githubPath ("https://github.com/" ++ rest) = some (.ofText rest.toList) := by
  rw [githubPath, String.toList_append, afterLead_append]
  rfl

theorem repository_text (source : RunSource) :
    source.repository.toList = ['/'].intercalate (repositorySegments source) :=
  (List.intercalate_splitOn '/').symm

/-- Two more segments at the end of a text. -/
theorem intercalate_append_pair {segments : List Segment} (hne : segments ≠ []) (s t : Segment) :
    ['/'].intercalate segments ++ '/' :: (s ++ '/' :: t) =
      ['/'].intercalate (segments ++ [s, t]) := by
  induction segments with
  | nil => exact absurd rfl hne
  | cons u rest ih =>
      cases rest with
      | nil =>
          rw [List.intercalate_singleton, List.singleton_append, List.intercalate_cons_cons,
            List.intercalate_cons_cons, List.intercalate_singleton, List.append_assoc,
            List.append_assoc]
          rfl
      | cons v rest =>
          have hrest := ih (List.cons_ne_nil v rest)
          rw [List.cons_append, List.cons_append, List.intercalate_cons_cons,
            List.intercalate_cons_cons, List.append_assoc, hrest, List.cons_append]

theorem repositoryLink_text (numbers : NumberFormat) (source : RunSource) :
    githubPath (renderJobOverview numbers source).repository =
      some (.ofText (['/'].intercalate (repositorySegments source))) := by
  have hlink : (renderJobOverview numbers source).repository =
      "https://github.com/" ++ source.repository := rfl
  rw [hlink, githubPath_link, repository_text]

theorem repositorySegments_ne_nil (source : RunSource) : repositorySegments source ≠ [] :=
  List.splitOn_ne_nil '/' _

theorem pullLink_text (numbers : NumberFormat) (source : RunSource) :
    githubPath (renderJobOverview numbers source).pullRequest =
      some (.ofText (['/'].intercalate (pullSegments numbers source))) := by
  have hlink : (renderJobOverview numbers source).pullRequest =
      "https://github.com/" ++ (source.repository ++ ("/pull/" ++ numbers.print source.pullRequest)) := by
    rw [← String.append_assoc, ← String.append_assoc]
    rfl
  have hpull : "/pull/".toList = '/' :: ("pull".toList ++ ['/']) := by decide
  rw [hlink, githubPath_link, String.toList_append, String.toList_append, repository_text, hpull,
    List.cons_append, List.append_assoc, List.singleton_append,
    intercalate_append_pair (repositorySegments_ne_nil source)]
  rfl

theorem commitLink_text (numbers : NumberFormat) (source : RunSource) :
    githubPath (renderJobOverview numbers source).headCommit =
      some (.ofText (['/'].intercalate (commitSegments source))) := by
  have hlink : (renderJobOverview numbers source).headCommit =
      "https://github.com/" ++ (source.repository ++ ("/commit/" ++ source.headSha)) := by
    rw [← String.append_assoc, ← String.append_assoc]
    rfl
  have hcommit : "/commit/".toList = '/' :: ("commit".toList ++ ['/']) := by decide
  rw [hlink, githubPath_link, String.toList_append, String.toList_append, repository_text, hcommit,
    List.cons_append, List.append_assoc, List.singleton_append,
    intercalate_append_pair (repositorySegments_ne_nil source)]
  rfl

end Written

/-! ## Which identifiers keep their place -/

section Kept

variable {run other : RunId} {action later : JobAction} {client : CoordinatorClient}
  {source : RunSource} {segments : List Segment}

theorem jobSegments_ne_nil (run : RunId) (action : JobAction) : jobSegments run action ≠ [] :=
  List.cons_ne_nil _ _

theorem isIdentifier_jobSegments (hrun : IsIdentifier run.value.toList) (action : JobAction) :
    ∀ s ∈ jobSegments run action, IsIdentifier s := by
  have haction : IsIdentifier action.toText.toList := by
    cases action <;> exact isIdentifier_of_all rfl
  simp only [jobSegments, jobsSegments, List.cons_append, List.nil_append, List.forall_mem_cons]
  exact ⟨isIdentifier_of_all rfl, isIdentifier_of_all rfl, isIdentifier_of_all rfl, hrun, haction,
    fun _ h => absurd h List.not_mem_nil⟩

theorem isIdentifier_lostJobSegments {worker : String} (hworker : IsIdentifier worker.toList) :
    ∀ s ∈ lostJobSegments worker, IsIdentifier s := by
  simp only [lostJobSegments, List.forall_mem_cons]
  exact ⟨isIdentifier_of_all rfl, isIdentifier_of_all rfl, isIdentifier_of_all rfl, hworker,
    isIdentifier_of_all rfl, fun _ h => absurd h List.not_mem_nil⟩

theorem isIdentifier_repositorySegments (h : source.Accepted) :
    ∀ s ∈ repositorySegments source, IsIdentifier s := by
  obtain ⟨owner, name, hsplit, howner, hname⟩ := validRepository_parts h.repository
  rw [repositorySegments, hsplit]
  simp only [List.forall_mem_cons]
  exact ⟨isIdentifierChar_of_validRepositoryPart howner,
    isIdentifierChar_of_validRepositoryPart hname, fun _ h => absurd h List.not_mem_nil⟩

theorem endpoint_literal_iff {reference : String} (hne : segments ≠ [])
    (htext : reference.toList = ['/'].intercalate segments)
    (hsegments : ∀ s ∈ segments, IsIdentifier s) :
    (client.endpoint reference).segments = client.root ++ segments ↔
      ∀ s ∈ segments, IsLiteral s := by
  show pathState client.root [] reference.toList = _ ↔ _
  rw [htext]
  exact pathState_eq_append_iff hne (fun s hs => (hsegments s hs).plain)
    fun p hp => client.basePath.literal p (List.dropLast_subset _ hp)

theorem link_literal_iff (hne : segments ≠ []) (hsegments : ∀ s ∈ segments, IsIdentifier s) :
    (some (Parsed.ofText (['/'].intercalate segments))).map (·.segments) = some segments ↔
      ∀ s ∈ segments, IsLiteral s := by
  rw [Option.map_some, Option.some_inj]
  show pathState [] [] _ = [] ++ segments ↔ _
  exact pathState_eq_append_iff hne (fun s hs => (hsegments s hs).plain)
    fun p hp => absurd hp List.not_mem_nil

theorem job_literal_iff (hrun : IsIdentifier run.value.toList) (action : JobAction) :
    (client.endpoint (jobPath run action)).segments = client.root ++ jobSegments run action ↔
      run.value ∉ dotSegments := by
  have haction : IsLiteral action.toText.toList := by cases action <;> decide
  rw [endpoint_literal_iff (jobSegments_ne_nil run action) (jobPath_segments run action)
    (isIdentifier_jobSegments hrun action), ← isLiteral_iff_not_dotSegment hrun]
  simp only [jobSegments, jobsSegments, List.cons_append, List.nil_append, List.forall_mem_cons]
  exact ⟨fun h => h.2.2.2.1, fun h => ⟨by decide, by decide, by decide, h, haction,
    fun _ h => absurd h List.not_mem_nil⟩⟩

theorem lostJob_literal_iff (hworker : IsIdentifier client.workerId.toList) :
    (client.endpoint client.lostJobPath).segments =
        client.root ++ lostJobSegments client.workerId ↔
      client.workerId ∉ dotSegments := by
  have hne : lostJobSegments client.workerId ≠ [] := List.cons_ne_nil _ _
  rw [endpoint_literal_iff hne (lostJobPath_segments client)
    (isIdentifier_lostJobSegments hworker), ← isLiteral_iff_not_dotSegment hworker]
  simp only [lostJobSegments, List.forall_mem_cons]
  exact ⟨fun h => h.2.2.2.1, fun h => ⟨by decide, by decide, by decide, h, by decide,
    fun _ h => absurd h List.not_mem_nil⟩⟩

/-- Every endpoint of a job: its own segments are closed last, the id before the action. -/
theorem endpoint_job (hrun : IsIdentifier run.value.toList) (action : JobAction) :
    (client.endpoint (jobPath run action)).segments =
      close (client.root ++ jobsSegments) run.value.toList false ++ [action.toText.toList] := by
  have haction : IsLiteral action.toText.toList := by cases action <;> decide
  show pathState client.root [] (jobPath run action).toList = _
  rw [jobPath_segments, pathState_intercalate (jobSegments_ne_nil run action)
    fun s hs => (isIdentifier_jobSegments hrun action s hs).plain]
  show closeAll client.root ("v1".toList :: "package-harness".toList :: "jobs".toList ::
    [run.value.toList, action.toText.toList]) = _
  rw [closeAll, close_of_isLiteral (by decide), closeAll, close_of_isLiteral (by decide), closeAll,
    close_of_isLiteral (by decide), closeAll, closeAll, close_of_isLiteral haction, jobsSegments,
    List.append_assoc, List.append_assoc]
  rfl

theorem JobAction.toText_injective (h : action.toText.toList = later.toText.toList) :
    action = later := by
  revert h
  cases action <;> cases later <;> decide

theorem eq_of_endpoint_eq (hrun : IsIdentifier run.value.toList)
    (hother : IsIdentifier other.value.toList) (hliteral : run.value ∉ dotSegments)
    (h : (client.endpoint (jobPath other later)).segments =
      (client.endpoint (jobPath run action)).segments) : other = run ∧ later = action := by
  rw [endpoint_job hrun, endpoint_job hother] at h
  obtain ⟨hclosed, hactions⟩ := List.append_inj' h rfl
  have hvalue : other.value = run.value :=
    String.toList_inj.mp (eq_of_close_eq ((isLiteral_iff_not_dotSegment hrun).mpr hliteral) hclosed)
  refine ⟨?_, JobAction.toText_injective (List.singleton_inj.mp hactions)⟩
  show RunId.mk other.value = RunId.mk run.value
  rw [hvalue]

end Kept

/-! ## Every URL of a job -/

/-- The URLs of a job keep the segments that were written. -/
structure LiteralUrls (client : CoordinatorClient) (numbers : NumberFormat) (run : RunId)
    (source : RunSource) : Prop where
  jobs : ∀ action, (client.endpoint (jobPath run action)).segments =
    client.root ++ jobSegments run action
  lostJob : (client.endpoint client.lostJobPath).segments =
    client.root ++ lostJobSegments client.workerId
  repository : (githubPath (renderJobOverview numbers source).repository).map (·.segments) =
    some (repositorySegments source)
  pullRequest : (githubPath (renderJobOverview numbers source).pullRequest).map (·.segments) =
    some (pullSegments numbers source)
  headCommit : (githubPath (renderJobOverview numbers source).headCommit).map (·.segments) =
    some (commitSegments source)

/-- The endpoints of a job lie below its own segment, and no other job has one of them. -/
structure OwnEndpoints (client : CoordinatorClient) (run : RunId) : Prop where
  inside : ∀ action, client.root ++ jobsSegments ++ [run.value.toList] <+:
    (client.endpoint (jobPath run action)).segments
  alone : ∀ action later value other, RunId.parse value = .ok other →
    (client.endpoint (jobPath other later)).segments =
      (client.endpoint (jobPath run action)).segments → other = run ∧ later = action

section Accepted

variable {types : DappnodeTypes} {dto : RunRequestDto} {request : RunRequest}
  {baseUrl : ServiceUrl} {client : CoordinatorClient} {numbers : NumberFormat} {run : RunId}
  {source : RunSource} {value worker : String}

theorem CoordinatorClient.new_workerId (h : CoordinatorClient.new baseUrl worker = .ok client) :
    client.workerId = worker := by
  rw [CoordinatorClient.new] at h
  split at h
  · cases h
  · split at h
    · cases h
    · cases h
      rfl

theorem isIdentifier_workerId (h : Environment.validateWorkerId worker = .ok ()) :
    IsIdentifier worker.toList := by
  have hensure := Environment.ensure_eq_ok.mp h
  rw [Bool.and_eq_true] at hensure
  exact List.all_eq_true.mp hensure.2

theorem isAlphanum_of_all {s : Segment} (h : s.all Char.isAlphanum = true) :
    ∀ c ∈ s, c.isAlphanum = true :=
  List.all_eq_true.mp h

theorem isAlphanum_of_isDigit {c : Char} (h : c.isDigit = true) : c.isAlphanum = true :=
  Text.isAlphanum_iff.mpr (Or.inr (Or.inr (Text.isDigit_iff.mp h)))

theorem isAlphanum_of_isHexDigit {c : Char} (h : c.isHexDigit = true) : c.isAlphanum = true := by
  have hrange := Text.isHexDigit_iff.mp h
  rw [Text.isAlphanum_iff]
  omega

theorem ownEndpoints (hrun : IsIdentifier run.value.toList) (h : run.value ∉ dotSegments) :
    OwnEndpoints client run := by
  constructor
  · intro action
    rw [(job_literal_iff hrun action).mpr h, jobSegments]
    exact ⟨[action.toText.toList], by simp⟩
  · intro action later value other hother
    obtain ⟨hvalue, -, hchars⟩ := RunId.parse_eq_ok hother
    rw [← hvalue] at hchars
    exact eq_of_endpoint_eq hrun hchars h

/-- The two links that go on behind the repository keep their segments with it. -/
theorem pairLink_literal {s t : Segment} (hsource : source.Accepted)
    (hs : ∀ c ∈ s, c.isAlphanum = true) (ht : ∀ c ∈ t, c.isAlphanum = true)
    (h : ∀ p ∈ repositorySegments source, IsLiteral p) :
    (some (Parsed.ofText (['/'].intercalate (repositorySegments source ++ [s, t])))).map
      (·.segments) = some (repositorySegments source ++ [s, t]) := by
  have hpair : ∀ {P : Segment → Prop}, P s → P t → ∀ p ∈ [s, t], P p := by
    intro P hPs hPt
    simp only [List.forall_mem_cons]
    exact ⟨hPs, hPt, fun _ h => absurd h List.not_mem_nil⟩
  refine (link_literal_iff (by simp) (List.forall_mem_append.mpr
    ⟨isIdentifier_repositorySegments hsource, ?_⟩)).mpr (List.forall_mem_append.mpr ⟨h, ?_⟩)
  · exact hpair (isIdentifier_of_isAlphanum hs) (isIdentifier_of_isAlphanum ht)
  · exact hpair (isLiteral_of_isAlphanum hs) (isLiteral_of_isAlphanum ht)

theorem repository_literal_iff (hsource : source.Accepted) :
    (∀ p ∈ repositorySegments source, IsLiteral p) ↔
      ∀ part ∈ repositorySegments source, String.ofList part ∉ dotSegments := by
  refine forall₂_congr fun part hpart => ?_
  have hchars : IsIdentifier (String.ofList part).toList := by
    rw [String.toList_ofList]
    exact isIdentifier_repositorySegments hsource part hpart
  rw [← isLiteral_iff_not_dotSegment hchars, String.toList_ofList]

/-- For every accepted job id, worker id and request: the URLs built from them keep the written
segments, and the endpoints of the job are its own, exactly if neither id and neither part of the
repository is `.` or `..`. -/
theorem url_segments_literal_iff (hrun : RunId.parse value = .ok run)
    (hworker : Environment.validateWorkerId worker = .ok ())
    (hclient : CoordinatorClient.new baseUrl worker = .ok client)
    (hrequest : RunRequest.tryFrom types dto = .ok request) :
    LiteralUrls client numbers run request.source ∧ OwnEndpoints client run ↔
      run.value ∉ dotSegments ∧ worker ∉ dotSegments ∧
        ∀ part ∈ request.source.repository.toList.splitOn '/', String.ofList part ∉ dotSegments := by
  obtain ⟨hvalue, -, hchars⟩ := RunId.parse_eq_ok hrun
  rw [← hvalue] at hchars
  have hlost := isIdentifier_workerId hworker
  rw [← CoordinatorClient.new_workerId hclient] at hlost ⊢
  have hsource := (RunRequest.tryFrom_eq_ok hrequest).2.source
  have hparts := repository_literal_iff hsource
  constructor
  · rintro ⟨hurls, -⟩
    have hrepository := hurls.repository
    rw [repositoryLink_text, link_literal_iff (repositorySegments_ne_nil _)
      (isIdentifier_repositorySegments hsource)] at hrepository
    exact ⟨(job_literal_iff hchars .heartbeat).mp (hurls.jobs .heartbeat),
      (lostJob_literal_iff hlost).mp hurls.lostJob, hparts.mp hrepository⟩
  · rintro ⟨hjob, hclientId, hrepository⟩
    have hkept := hparts.mpr hrepository
    refine ⟨⟨fun action => (job_literal_iff hchars action).mpr hjob,
      (lostJob_literal_iff hlost).mpr hclientId, ?_, ?_, ?_⟩, ownEndpoints hchars hjob⟩
    · rw [repositoryLink_text]
      exact (link_literal_iff (repositorySegments_ne_nil _)
        (isIdentifier_repositorySegments hsource)).mpr hkept
    · rw [pullLink_text]
      exact pairLink_literal hsource (isAlphanum_of_all rfl)
        (fun c hc => isAlphanum_of_isDigit (numbers.digits _ hsource.pullRequest.2 c hc)) hkept
    · rw [commitLink_text]
      exact pairLink_literal hsource (isAlphanum_of_all rfl)
        (fun c hc => isAlphanum_of_isHexDigit (hsource.hexadecimal c hc)) hkept

end Accepted

/-! ## One job on a coordinator -/

/-- A coordinator at the root of its host. -/
def tropibotUrl : ServiceUrl where
  scheme := "https"
  host := some "tropibot.example"
  path := { segments := [[]], literal := by simp [isLiteral_nil] }

def tropibotClient : CoordinatorClient where
  basePath := tropibotUrl.path
  workerId := "worker-1"

/-- Numbers as they are written up to the 53 bits that a script engine keeps exactly. -/
def decimalNumbers : NumberFormat where
  print := fun n => String.ofList (Nat.toDigits 10 n)
  digits := by
    intro n _ c hc
    rw [String.toList_ofList] at hc
    exact Nat.isDigit_of_mem_toDigits (by decide) (by decide) hc

/-- Package names and references that are taken as they are. -/
def lenientTypes : DappnodeTypes where
  parseDnpName := fun value => .ok ⟨value⟩
  parsePackageRef := fun value => .ok ⟨value⟩

def exampleDto : RunRequestDto where
  schemaVersion := 1
  runId := "run-01"
  source := {
    repository := "dappnode/example-package"
    pullRequest := 1
    headSha := "abcdef0"
  }
  package := {
    dnpName := "example.dnp.dappnode.eth"
    candidateRef := "/ipfs/QmCandidate"
    baselineRef := none
  }

def exampleRequest : RunRequest where
  schemaVersion := 1
  runId := ⟨"run-01"⟩
  source := {
    repository := "dappnode/example-package"
    pullRequest := 1
    headSha := "abcdef0"
  }
  package := {
    dnpName := ⟨"example.dnp.dappnode.eth"⟩
    candidateRef := ⟨"/ipfs/QmCandidate"⟩
    baselineRef := none
  }

/-- The id `..` is accepted, and completing that job is a request outside all jobs. -/
theorem parent_id_leaves_its_job :
    RunId.parse ".." = .ok ⟨".."⟩ ∧
      Environment.validateWorkerId "worker-1" = .ok () ∧
      CoordinatorClient.new tropibotUrl "worker-1" = .ok tropibotClient ∧
      (tropibotClient.endpoint (completePath ⟨".."⟩)).segments =
        ["v1".toList, "package-harness".toList, "complete".toList] ∧
      ¬OwnEndpoints tropibotClient ⟨".."⟩ := by
  have hcomplete : (tropibotClient.endpoint (completePath ⟨".."⟩)).segments =
      ["v1".toList, "package-harness".toList, "complete".toList] :=
    endpoint_job (isIdentifier_of_all rfl) .complete
  refine ⟨rfl, rfl, rfl, hcomplete, ?_⟩
  intro h
  have hlength := (h.inside .complete).length_le
  rw [show jobPath ⟨".."⟩ .complete = completePath ⟨".."⟩ from rfl, hcomplete] at hlength
  exact absurd hlength (by decide)

theorem ordinary_job_keeps_its_segments :
    LiteralUrls tropibotClient decimalNumbers ⟨"run-01"⟩ exampleRequest.source ∧
      OwnEndpoints tropibotClient ⟨"run-01"⟩ := by
  have hrun : RunId.parse "run-01" = .ok ⟨"run-01"⟩ := rfl
  have hworker : Environment.validateWorkerId "worker-1" = .ok () := rfl
  have hclient : CoordinatorClient.new tropibotUrl "worker-1" = .ok tropibotClient := rfl
  have hrequest : RunRequest.tryFrom lenientTypes exampleDto = .ok exampleRequest := rfl
  exact (url_segments_literal_iff hrun hworker hclient hrequest).mpr
    ⟨by decide, by decide, by decide⟩

end PackageHarness
