import Mathlib.Data.List.Nodup
import PackageRegistry.Registry.History
import PackageRegistry.Store.Mirror

/-! # Publication resumes

Whatever stops a run of `publish_all_from_registry`, what it has published stays, and the next run
goes on behind it.
-/

namespace PackageRegistry.Store

open Runs Checks

variable {store : FilesystemArtifactStore} {lib : Library}

/-! ## What a publication leaves behind -/

/-- A call of `publish` has been opened for the candidate. -/
def CalledFor (d : Depot) (call : Pid × ReleaseCandidate) : Prop :=
  call.1 < d.next ∧ ∃ source, d.call call.1 = callFor call.2 source

/-- The candidate's artifact, with the digest of the registry -/
def HasArtifact (store : FilesystemArtifactStore) (d : Depot) (candidate : ReleaseCandidate) : Prop :=
  Holds store d (callFor candidate (target store candidate))

/-- Anything at the place of the artifact -/
def Present (store : FilesystemArtifactStore) (d : Depot) (candidate : ReleaseCandidate) : Prop :=
  ∃ bytes, d.state.fs.read (target store candidate) = some bytes

/-- The URL leads back to the mirror itself. -/
def SelfHosted (lib : Library) (candidate : ReleaseCandidate) : Prop :=
  ∃ source, validate_candidate_url lib candidate = .ok source ∧
    source.hostname lib = some CANONICAL_REGISTRY_HOST

theorem HasArtifact.present {d : Depot} {candidate : ReleaseCandidate}
    (has : HasArtifact store d candidate) : Present store d candidate := by
  obtain ⟨bytes, there, -⟩ := has
  exact ⟨bytes, there⟩

theorem Present.later {d d' : Depot} {candidate : ReleaseCandidate}
    (present : Present store d candidate) (later : Later d d') (good : Good store d)
    (good' : Good store d') : Present store d' candidate := by
  obtain ⟨bytes, there⟩ := present
  exact ⟨bytes, later.read good good' there⟩

theorem CalledFor.later {d d' : Depot} {call : Pid × ReleaseCandidate} (called : CalledFor d call)
    (later : Later d d') : CalledFor d' call := by
  obtain ⟨old, source, same⟩ := called
  exact ⟨Nat.lt_of_lt_of_le old later.next, source, (later.call _ old).trans same⟩

/-- A file that a call has linked is the artifact. -/
theorem CalledFor.linked {d : Depot} {call : Pid × ReleaseCandidate} (called : CalledFor d call)
    (good : Good store d) {path : Path} (linked : d.state.linker path = some call.1) :
    path = target store call.2 ∧ HasArtifact store d call.2 := by
  obtain ⟨-, source, same⟩ := called
  obtain ⟨i, present⟩ := good.inv.linked _ _ linked
  obtain ⟨pid, owner, final, digest⟩ := good.inv.complete _ _ present
  rw [linked, Option.some.injEq] at owner
  rw [← owner, same] at final digest
  refine ⟨final.symm, _, ?_, digest⟩
  rw [read_eq_cells good.reachable, FileSystem.cells]
  exact congrArg (Option.map d.state.fs.content) ((congrArg d.state.fs.file final).trans present)

/-- From one desk to a later one, with at most this candidate dealt with -/
structure Dealt (store : FilesystemArtifactStore) (lib : Library) (candidate : ReleaseCandidate)
    (desk desk' : Desk) : Prop where
  good : Good store desk'.depot
  later : Later desk.depot desk'.depot
  downloads : desk'.downloads = desk.downloads ∨
    desk'.downloads = desk.downloads ++ [candidate] ∧ ¬Present store desk.depot candidate ∧
      ¬SelfHosted lib candidate
  calls : ∀ call ∈ desk'.calls, call ∈ desk.calls ∨ call.2 = candidate ∧ CalledFor desk'.depot call

/-- What a result says -/
structure Reports (store : FilesystemArtifactStore) (lib : Library) (candidate : ReleaseCandidate)
    (desk desk' : Desk) (r : PublishResult) : Prop where
  about : r.candidate = candidate
  target_path : r.target_path = target store candidate
  stored : HasArtifact store desk'.depot candidate
  already : Present store desk.depot candidate ∨ SelfHosted lib candidate →
    r.status = .alreadyPresent

section

variable {circumstances : Circumstances} {candidate : ReleaseCandidate} {desk : Desk}

theorem dealt_publish (lib : Library) (circumstances : Circumstances) (candidate : ReleaseCandidate)
    {desk : Desk} (good : Good store desk.depot) (source : Path) (content : Bytes) :
    Dealt store lib candidate desk (desk.publish store circumstances candidate source content).2 where
  good := good_publish good _ _ _
  later := later_publish good _ _ _
  downloads := .inl rfl
  calls := by
    intro call mem
    rcases List.mem_append.mp mem with old | new
    · exact .inl old
    · cases List.mem_singleton.mp new
      exact .inr ⟨rfl, next_publish good _ _ _, source, call_publish good _ _ _⟩

theorem publish_reports (good : Good store desk.depot) {source : Path} {content : Bytes}
    {r : PublishResult}
    (returned : (desk.publish store circumstances candidate source content).1 = .ok r) :
    r.candidate = candidate ∧ r.target_path = target store candidate ∧
      HasArtifact store (desk.publish store circumstances candidate source content).2.depot
        candidate ∧
      (Present store desk.depot candidate → r.status = .alreadyPresent) := by
  obtain ⟨publication, outcome, rfl⟩ := map_ok.mp returned
  obtain ⟨holds, old⟩ := publish_ok good (mapError_ok.mp outcome)
  exact ⟨rfl, rfl, holds, old⟩

theorem inspect_ok {artifact : StoredArtifact}
    (found : inspect store circumstances candidate desk = .ok artifact) :
    Present store desk.depot candidate := by
  simp only [inspect, verify] at found
  split at found
  · cases found
  · split at found
    · cases found
    · split at found
      · cases found
      · exact ⟨_, ‹_›⟩

theorem inspect_missing {message : String}
    (missing : inspect store circumstances candidate desk = .error (.artifactNotFound message)) :
    ¬Present store desk.depot candidate := by
  rintro ⟨bytes, present⟩
  simp only [inspect, verify] at missing
  split at missing
  · rename_i obstacle _
    cases obstacle <;> cases missing
  · split at missing
    · rename_i e refused
      rw [_identity] at refused
      repeat' split at refused
      all_goals cases refused <;> cases missing
    · split at missing
      · rename_i gone
        have same : finalPath store (callFor candidate (target store candidate)) =
            target store candidate := rfl
        rw [same, present] at gone
        cases gone
      · have other := (verified_error missing).1
        cases other

/-! ## One publication -/

theorem dealt_refl (good : Good store desk.depot) : Dealt store lib candidate desk desk where
  good := good
  later := .refl _
  downloads := .inl rfl
  calls _ old := .inl old

theorem dealt_attempt {host_verifier : Bool} (good : Good store desk.depot)
    (absent : ¬Present store desk.depot candidate) (remote : ¬SelfHosted lib candidate)
    (directory : Path) : Dealt store lib candidate desk
      (attempt store host_verifier circumstances candidate desk directory).2 := by
  simp only [attempt]
  split
  · exact ⟨good, .refl _, .inr ⟨rfl, absent, remote⟩, fun _ old => .inl old⟩
  · rename_i bytes _
    have asked : Good store { desk with downloads := desk.downloads ++ [candidate] }.depot := good
    have published := dealt_publish lib circumstances candidate asked
      (partialPath candidate directory) bytes
    exact ⟨published.good, published.later, .inr ⟨rfl, absent, remote⟩, published.calls⟩

theorem attempt_ok {host_verifier : Bool} (good : Good store desk.depot) {directory : Path}
    {r : PublishResult}
    (returned : (attempt store host_verifier circumstances candidate desk directory).1 = .ok r) :
    r.candidate = candidate ∧ r.target_path = target store candidate ∧
      HasArtifact store
        (attempt store host_verifier circumstances candidate desk directory).2.depot candidate := by
  simp only [attempt] at returned ⊢
  split at returned
  · cases returned
  · have asked : Good store { desk with downloads := desk.downloads ++ [candidate] }.depot := good
    obtain ⟨about, target_path, stored, -⟩ := publish_reports asked returned
    exact ⟨about, target_path, stored⟩

theorem leave_ok {result : Published} {r : PublishResult}
    (returned : leave circumstances result = .ok r) : result = .ok r := by
  unfold leave at returned
  split at returned
  · cases returned
  · split at returned
    · cases returned
    · exact returned

theorem dealt_acquire {host_verifier : Bool} {source : SplitResult}
    (url : validate_candidate_url lib candidate = .ok source) (good : Good store desk.depot)
    (absent : ¬Present store desk.depot candidate) : Dealt store lib candidate desk
      (acquire store lib host_verifier circumstances candidate desk source).2 := by
  unfold acquire
  split
  · exact dealt_refl good
  · rename_i elsewhere
    have remote : ¬SelfHosted lib candidate := by
      rintro ⟨source', url', here⟩
      rw [url, Except.ok.injEq] at url'
      exact elsewhere (url' ▸ here)
    split
    · exact dealt_refl good
    · split
      · exact dealt_refl good
      · exact dealt_attempt good absent remote _

theorem acquire_ok {host_verifier : Bool} {source : SplitResult}
    (url : validate_candidate_url lib candidate = .ok source) (good : Good store desk.depot)
    (absent : ¬Present store desk.depot candidate) {r : PublishResult}
    (returned : (acquire store lib host_verifier circumstances candidate desk source).1 = .ok r) :
    Reports store lib candidate desk
      (acquire store lib host_verifier circumstances candidate desk source).2 r := by
  unfold acquire at returned ⊢
  split at returned
  · cases returned
  · rename_i elsewhere
    rw [if_neg elsewhere]
    split at returned
    · cases returned
    · split at returned
      · cases returned
      · obtain ⟨about, target_path, stored⟩ := attempt_ok good (mapError_ok.mp (leave_ok returned))
        refine ⟨about, target_path, stored, ?_⟩
        · rintro (present | ⟨source', url', here⟩)
          · exact absurd present absent
          · rw [url, Except.ok.injEq] at url'
            exact absurd (url' ▸ here) elsewhere

theorem dealt_proceed {host_verifier : Bool} {source : SplitResult}
    (url : validate_candidate_url lib candidate = .ok source) (good : Good store desk.depot) :
    Dealt store lib candidate desk
      (proceed store lib host_verifier circumstances candidate desk source
        (inspect store circumstances candidate desk)).2 := by
  unfold proceed
  split
  · rename_i missing
    exact dealt_acquire url good (inspect_missing missing)
  · exact dealt_refl good
  · exact dealt_publish lib circumstances candidate good _ _

theorem proceed_ok {host_verifier : Bool} {source : SplitResult}
    (url : validate_candidate_url lib candidate = .ok source) (good : Good store desk.depot)
    {r : PublishResult}
    (returned : (proceed store lib host_verifier circumstances candidate desk source
      (inspect store circumstances candidate desk)).1 = .ok r) :
    Reports store lib candidate desk (proceed store lib host_verifier circumstances candidate desk
      source (inspect store circumstances candidate desk)).2 r := by
  unfold proceed at returned ⊢
  split at returned
  · rename_i missing
    exact acquire_ok url good (inspect_missing missing) returned
  · cases returned
  · rename_i found
    obtain ⟨about, target_path, stored, already⟩ := publish_reports good returned
    exact ⟨about, target_path, stored, fun _ => already (inspect_ok found)⟩

/-! What others have done meanwhile does not matter. -/

theorem good_waited (good : Good store desk.depot) :
    Good store (desk.waited store circumstances).depot := good_run good _

theorem Present.waited (good : Good store desk.depot) (present : Present store desk.depot candidate) :
    Present store (desk.waited store circumstances).depot candidate :=
  present.later (later_run good _) good (good_waited good)

theorem Dealt.since {desk' : Desk} (good : Good store desk.depot)
    (dealt : Dealt store lib candidate (desk.waited store circumstances) desk') :
    Dealt store lib candidate desk desk' where
  good := dealt.good
  later := (later_run good circumstances.before).trans dealt.later
  downloads := dealt.downloads.imp_right fun ⟨asked, absent, remote⟩ =>
    ⟨asked, fun present => absent (present.waited good), remote⟩
  calls := dealt.calls

theorem Reports.since {desk' : Desk} (good : Good store desk.depot) {r : PublishResult}
    (reports : Reports store lib candidate (desk.waited store circumstances) desk' r) :
    Reports store lib candidate desk desk' r :=
  { reports with already := fun known => reports.already (known.imp_left (·.waited good)) }

theorem dealt_publish_candidate (lib : Library) (host_verifier : Bool)
    (circumstances : Circumstances) (candidate : ReleaseCandidate) {desk : Desk}
    (good : Good store desk.depot) :
    Dealt store lib candidate desk
      (publish_candidate store lib host_verifier circumstances candidate desk).2 := by
  unfold publish_candidate
  split
  · exact dealt_refl good
  · rename_i source url
    split
    · exact dealt_refl good
    · exact (dealt_proceed url (good_waited good)).since good

theorem publish_candidate_ok (lib : Library) (host_verifier : Bool)
    (circumstances : Circumstances) (candidate : ReleaseCandidate) {desk : Desk}
    (good : Good store desk.depot) {r : PublishResult}
    (returned : (publish_candidate store lib host_verifier circumstances candidate desk).1 = .ok r) :
    Reports store lib candidate desk
      (publish_candidate store lib host_verifier circumstances candidate desk).2 r := by
  unfold publish_candidate at returned ⊢
  split at returned
  · cases returned
  · rename_i source url
    split at returned
    · cases returned
    · exact (proceed_ok url (good_waited good) returned).since good

end

/-! ## The loop -/

/-- What a run over these candidates leaves -/
structure Worked (store : FilesystemArtifactStore) (lib : Library)
    (candidates : List ReleaseCandidate) (desk : Desk) (run : BulkRun) : Prop where
  good : Good store run.desk.depot
  later : Later desk.depot run.desk.depot
  inOrder : run.results.map (·.candidate) <+: candidates
  finished : run.stop = none → run.results.map (·.candidate) = candidates
  results : ∀ r ∈ run.results, r.target_path = target store r.candidate ∧
    HasArtifact store run.desk.depot r.candidate ∧
    (Present store desk.depot r.candidate ∨ SelfHosted lib r.candidate →
      r.status = .alreadyPresent)
  downloads : ∀ c ∈ run.desk.downloads, c ∈ desk.downloads ∨
    c ∈ candidates ∧ ¬Present store desk.depot c ∧ ¬SelfHosted lib c
  calls : ∀ call ∈ run.desk.calls, call ∈ desk.calls ∨
    call.2 ∈ candidates ∧ CalledFor run.desk.depot call

theorem Worked.stopped {candidates : List ReleaseCandidate} {candidate : ReleaseCandidate}
    {desk next : Desk} (first : candidates.head? = some candidate)
    (dealt : Dealt store lib candidate desk next) (stop : Stop Trouble) :
    Worked store lib candidates desk ⟨[], some stop, next⟩ := by
  have mem : candidate ∈ candidates := List.mem_of_head? first
  refine ⟨dealt.good, dealt.later, List.nil_prefix, fun never => absurd never (Option.some_ne_none _),
    fun _ mem => absurd mem List.not_mem_nil, fun c asked => ?_, fun call made => ?_⟩
  · rcases dealt.downloads with same | ⟨more, absent, remote⟩
    · exact .inl (same ▸ asked)
    · rcases List.mem_append.mp (more ▸ asked) with old | new
      · exact .inl old
      · cases List.mem_singleton.mp new
        exact .inr ⟨mem, absent, remote⟩
  · rcases dealt.calls call made with old | ⟨rfl, called⟩
    · exact .inl old
    · exact .inr ⟨mem, called⟩

theorem Worked.more {rest : List ReleaseCandidate} {candidate : ReleaseCandidate}
    {desk next : Desk} {run : BulkRun} {r : PublishResult} (good : Good store desk.depot)
    (dealt : Dealt store lib candidate desk next)
    (reports : Reports store lib candidate desk next r) (worked : Worked store lib rest next run) :
    Worked store lib (candidate :: rest) desk { run with results := r :: run.results } := by
  have first : Worked store lib (candidate :: rest) desk ⟨[], some .killed, next⟩ :=
    .stopped rfl dealt .killed
  refine ⟨worked.good, dealt.later.trans worked.later, ?_, fun whole => ?_, ?_, fun c asked => ?_,
    fun call made => ?_⟩
  · rw [List.map_cons, reports.about]
    exact List.cons_prefix_cons.mpr ⟨rfl, worked.inOrder⟩
  · rw [List.map_cons, reports.about, worked.finished whole]
  · refine List.forall_mem_cons.mpr ⟨?_, fun other mem => ?_⟩
    · rw [reports.about]
      exact ⟨reports.target_path, Holds.later reports.stored worked.later dealt.good worked.good,
        reports.already⟩
    · obtain ⟨target_path, stored, already⟩ := worked.results other mem
      exact ⟨target_path, stored, fun known =>
        already (known.imp_left (·.later dealt.later good dealt.good))⟩
  · rcases worked.downloads c asked with old | ⟨mem, absent, remote⟩
    · exact first.downloads c old
    · exact .inr ⟨List.mem_cons_of_mem _ mem,
        fun present => absent (present.later dealt.later good dealt.good), remote⟩
  · rcases worked.calls call made with old | ⟨mem, called⟩
    · exact (first.calls call old).imp_right fun ⟨mem, called⟩ => ⟨mem, called.later worked.later⟩
    · exact .inr ⟨List.mem_cons_of_mem _ mem, called⟩

theorem publishEach_worked (lib : Library) (host_verifier : Bool) (str : DownloadException → Text)
    (circumstances : Nat → Circumstances) (position : Nat) (candidates : List ReleaseCandidate)
    {desk : Desk} (good : Good store desk.depot) : Worked store lib candidates desk
      (publishEach lib store host_verifier str circumstances position candidates desk) := by
  induction candidates generalizing position desk with
  | nil =>
      exact ⟨good, .refl _, List.nil_prefix, fun _ => rfl, fun _ mem => absurd mem List.not_mem_nil,
        fun _ old => .inl old, fun _ old => .inl old⟩
  | cons candidate rest ih =>
      have dealt := dealt_publish_candidate lib host_verifier (circumstances position) candidate good
      have reported : ∀ r, _ → Reports store lib candidate desk _ r := fun r =>
        publish_candidate_ok lib host_verifier (circumstances position) candidate good
      rw [publishEach]
      generalize publish_candidate store lib host_verifier (circumstances position) candidate desk =
        step at dealt reported
      obtain ⟨result, next⟩ := step
      cases result with
      | error stop => exact .stopped rfl dealt _
      | ok r => exact (ih (position + 1) dealt.good).more good dealt (reported r rfl)

/-! ## The releases of a registry -/

/-- The candidates of a run, in its order -/
def releasesOf (s : Snapshot lib) : List ReleaseCandidate :=
  sortBy candidateKey ((allReleases s.modules).map fun release => .of release.1 release.2)

theorem mem_releasesOf {s : Snapshot lib} {c : ReleaseCandidate} :
    c ∈ releasesOf s ↔ ∃ m r, s.Published m r ∧ c = .of m r := by
  simp only [releasesOf, StableSort.mem_sortBy, List.mem_map, allReleases, List.mem_flatMap,
    Snapshot.Published]
  grind

theorem releasesOf_distinct (s : Snapshot lib) :
    ((releasesOf s).map fun c => (c.module_id, c.version)).Nodup := by
  have perm := (StableSort.perm_sortBy candidateKey
    ((allReleases s.modules).map fun release => .of release.1 release.2)).map
      fun c => (c.module_id, c.version)
  refine perm.nodup_iff.mpr ?_
  rw [List.map_map, allReleases, List.map_flatMap, List.nodup_flatMap]
  constructor
  · intro m mem
    rw [List.map_map]
    refine List.Nodup.of_map Prod.snd ?_
    rw [List.map_map]
    exact (s.valid m mem).distinct
  · refine (List.pairwise_map.mp s.distinct).imp fun {m m'} other => ?_
    intro identity mem mem'
    simp only [List.map_map, List.mem_map] at mem mem'
    obtain ⟨r, -, rfl⟩ := mem
    obtain ⟨r', -, same⟩ := mem'
    exact other (congrArg Prod.fst same).symm

theorem candidate_url_ok {c : ReleaseCandidate}
    (accepted : AcceptsArtifactUrl lib c.classification c.module_id c.version c.artifact_url) :
    ∃ source, validate_candidate_url lib c = .ok source := by
  obtain ⟨⟨_, parsed⟩, passed, -⟩ := bind_ok.mp accepted
  obtain ⟨same, -, split, -⟩ := https_url_ok.mp passed
  cases same
  refine ⟨parsed, ?_⟩
  rw [validate_candidate_url, artifact_url_ok.mpr ⟨rfl, accepted⟩]
  simp only [split]

theorem candidate_ok {s : Snapshot lib} {m : Module} {r : Release} (published : s.Published m r) :
    _candidate_from_release lib m r = .ok (.of m r) := by
  have accepted := ((s.valid m published.1).releases r published.2).url
  obtain ⟨source, url⟩ : ∃ source, validate_candidate_url lib (.of m r) = .ok source :=
    candidate_url_ok accepted
  rw [_candidate_from_release, url]
  rfl

/-- Of an accepted registry every release is selected. -/
theorem select_all_ok (s : Snapshot lib) : select_all_releases lib s.root = .ok (releasesOf s) := by
  have each : (allReleases s.modules).mapM
      (fun release => _candidate_from_release lib release.1 release.2) =
      .ok ((allReleases s.modules).map fun release => .of release.1 release.2) := by
    refine mapM_ok fun release mem => ?_
    obtain ⟨m, inModules, mem⟩ := List.mem_flatMap.mp mem
    obtain ⟨r, inVersions, rfl⟩ := List.mem_map.mp mem
    exact candidate_ok ⟨inModules, inVersions⟩
  have versions : checkVersions (((allReleases s.modules).map fun release =>
      ReleaseCandidate.of release.1 release.2).map (·.version)) = .ok () := by
    refine checkVersions_ok fun v mem => ?_
    obtain ⟨c, selected, rfl⟩ := List.mem_map.mp mem
    obtain ⟨m, r, ⟨inModules, inVersions⟩, rfl⟩ :=
      mem_releasesOf.mp ((StableSort.mem_sortBy _).mpr selected)
    exact ((s.valid m inModules).releases r inVersions).version
  rw [select_all_releases, s.accepted]
  change (do
    let candidates ← (allReleases s.modules).mapM fun release =>
      _candidate_from_release lib release.1 release.2
    (checkVersions (candidates.map (·.version))).mapError .registry
    .ok (sortBy candidateKey candidates) : Downloads _) = _
  rw [each, ok_bind, versions]
  rfl

/-! ## Runs of the script -/

theorem named_shown {str : DownloadException → Text} {candidate : ReleaseCandidate} {e : Trouble}
    {message : Text} (shown : (e.named str candidate).shown str = some message) :
    Text.startsWith (candidate.identity ++ text ":") message = true := by
  unfold Trouble.named at shown
  split at shown
  · rename_i unknown
    rw [unknown] at shown
    cases shown
  · rename_i own known
    split at shown
    · rename_i starts
      rw [known] at shown
      cases shown
      exact starts
    · cases shown
      have colon : text ": " = text ":" ++ text " " := by decide
      rw [Text.startsWith, List.isPrefixOf_iff_prefix, colon, ← List.append_assoc,
        List.append_assoc]
      exact List.prefix_append _ _

/-- The exception names the release that the run has stopped at. -/
theorem publishEach_named (lib : Library) (host_verifier : Bool) (str : DownloadException → Text)
    (circumstances : Nat → Circumstances) (position : Nat) (candidates : List ReleaseCandidate)
    (desk : Desk) {e : Trouble} {message : Text} :
    let run := publishEach lib store host_verifier str circumstances position candidates desk
    run.stop = some (.raised e) → e.shown str = some message →
      ∃ c, candidates[run.results.length]? = some c ∧
        Text.startsWith (c.identity ++ text ":") message = true := by
  induction candidates generalizing position desk with
  | nil => intro _ never
           cases never
  | cons candidate rest ih =>
      simp only [publishEach]
      split
      · rename_i stop _ _
        intro stopped shown
        cases stop with
        | killed => cases stopped
        | raised e =>
            cases stopped
            exact ⟨candidate, rfl, named_shown shown⟩
      · exact ih _ _

/-- The store after anything that has happened in it since it was empty -/
def Depot.after (store : FilesystemArtifactStore) (call : Pid → PublishCall)
    (directories : Path → Bool) (source : Pid → Bytes) (earlier : List Happening) : Depot :=
  run (Depot.step store) ⟨call, State.initial (.holding directories) source, 0⟩ earlier

/-- What a run on an accepted registry has done, finished or not -/
structure PublishesReleases (store : FilesystemArtifactStore) (str : DownloadException → Text)
    (s : Snapshot lib) (depot : Depot) (run : BulkRun) : Prop where
  inOrder : run.results.map (·.candidate) <+: releasesOf s
  finished : run.stop = none → run.results.map (·.candidate) = releasesOf s
  results : ∀ r ∈ run.results, r.target_path = target store r.candidate ∧
    HasArtifact store run.desk.depot r.candidate ∧
    (Present store depot r.candidate ∨ SelfHosted lib r.candidate → r.status = .alreadyPresent)
  downloads : ∀ c ∈ run.desk.downloads,
    c ∈ releasesOf s ∧ ¬Present store depot c ∧ ¬SelfHosted lib c
  linked : ∀ call ∈ run.desk.calls, ∀ path, run.desk.depot.state.linker path = some call.1 →
    call.2 ∈ releasesOf s ∧ path = target store call.2 ∧ HasArtifact store run.desk.depot call.2
  kept : ∀ path bytes, depot.state.fs.read path = some bytes →
    run.desk.depot.state.fs.read path = some bytes
  named : ∀ e message, run.stop = some (.raised e) → e.shown str = some message →
    ∃ c, (releasesOf s)[run.results.length]? = some c ∧
      Text.startsWith (c.identity ++ text ":") message = true

/-- What one run has published, a later one finds. -/
structure Resumes (first next : BulkRun) : Prop where
  downloads : ∀ r ∈ first.results, ∀ c ∈ next.desk.downloads,
    (c.module_id, c.version) ≠ (r.candidate.module_id, r.candidate.version)
  again : ∀ r ∈ first.results, ∀ r' ∈ next.results,
    r'.candidate.module_id = r.candidate.module_id → r'.candidate.version = r.candidate.version →
      r'.status = .alreadyPresent ∧ r'.candidate.expected_sha256 = r.candidate.expected_sha256

theorem publish_all_worked (lib : Library) (host_verifier : Bool) (str : DownloadException → Text)
    (circumstances : Nat → Circumstances) (s : Snapshot lib) {depot : Depot}
    (good : Good store depot) : Worked store lib (releasesOf s) ⟨depot, [], []⟩
      (publish_all_from_registry lib store host_verifier str circumstances s.root depot) := by
  rw [publish_all_from_registry, select_all_ok]
  exact publishEach_worked lib host_verifier str circumstances 0 (releasesOf s) good

theorem publish_all_releases (lib : Library) (host_verifier : Bool) (str : DownloadException → Text)
    (circumstances : Nat → Circumstances) (s : Snapshot lib) {depot : Depot}
    (good : Good store depot) : PublishesReleases store str s depot
      (publish_all_from_registry lib store host_verifier str circumstances s.root depot) := by
  have worked := publish_all_worked lib host_verifier str circumstances s good
  refine ⟨worked.inOrder, worked.finished, worked.results, fun c asked => ?_,
    fun call made path linked => ?_, fun path bytes => worked.later.read good worked.good, ?_⟩
  · exact (worked.downloads c asked).resolve_left List.not_mem_nil
  · obtain ⟨mem, called⟩ := (worked.calls call made).resolve_left List.not_mem_nil
    exact ⟨mem, called.linked worked.good linked⟩
  · intro e message
    rw [publish_all_from_registry, select_all_ok]
    exact publishEach_named lib host_verifier str circumstances 0 (releasesOf s) _

theorem target_eq (store : FilesystemArtifactStore) {c c' : ReleaseCandidate}
    (id : c.module_id = c'.module_id) (version : c.version = c'.version) : target store c = target store c' := by
  rw [target, target, id, version]

end PackageRegistry.Store
