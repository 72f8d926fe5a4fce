import PackageRegistry.Registry.Completeness
import PackageRegistry.Registry.Immutability
import PackageRegistry.Store.Publish

/-! # Registry history is append-only

`validate_immutability` compares neighbours. Over a whole history its checks compose:
a release stays, its URL moves at most once, and a new digest has passed the gate.
-/

namespace PackageRegistry

open Checks

open Store (canonical_public_artifact_url)

variable {lib : Library}

/-! ## The registry's own URL -/

theorem hostname_registry {url : SplitResult} (at_ : url.netloc = CANONICAL_REGISTRY_HOST) :
    url.hostname lib = some CANONICAL_REGISTRY_HOST := by
  have parts : Text.rpartition (.ofChar '@') CANONICAL_REGISTRY_HOST =
        (none, CANONICAL_REGISTRY_HOST) ∧
      Text.partition (.ofChar '[') CANONICAL_REGISTRY_HOST = (CANONICAL_REGISTRY_HOST, none) ∧
      Text.partition (.ofChar ':') CANONICAL_REGISTRY_HOST = (CANONICAL_REGISTRY_HOST, none) ∧
      Text.partition (.ofChar '%') CANONICAL_REGISTRY_HOST = (CANONICAL_REGISTRY_HOST, none) ∧
      CANONICAL_REGISTRY_HOST.isEmpty = false ∧
      CANONICAL_REGISTRY_HOST.all CodePoint.isAscii = true ∧
      CANONICAL_REGISTRY_HOST.map lowerAscii = CANONICAL_REGISTRY_HOST := by decide
  obtain ⟨user, bracket, port, zone, nonempty, ascii, lower⟩ := parts
  simp [SplitResult.hostname, SplitResult.hostinfo, at_, user, bracket, port, zone, nonempty,
    Library.lowercase, ascii, lower]

theorem splitNetloc_append {netloc : Text} (c : CodePoint) (rest : Text)
    (inside : netloc.all (fun d => !endsNetloc d) = true) (ends : endsNetloc c = true) :
    splitNetloc (text "//" ++ (netloc ++ c :: rest)) = (netloc, c :: rest) := by
  have slashes : Text.startsWith (text "//") (text "//" ++ (netloc ++ c :: rest)) = true := by
    simp [Text.startsWith]
  have after : (text "//" ++ (netloc ++ c :: rest)).drop 2 = netloc ++ c :: rest := rfl
  have all : ∀ d ∈ netloc, (!endsNetloc d) = true := List.all_eq_true.mp inside
  simp only [splitNetloc, slashes, if_true, after, List.takeWhile_append_of_pos all,
    List.dropWhile_append_of_pos all]
  simp [ends]

/-- A URL below the registry's host has this host, whatever follows. -/
theorem urlsplit_registry {rest : Text} {parsed : SplitResult}
    (h : urlsplit lib (text "https://" ++ CANONICAL_REGISTRY_HOST ++ .ofChar '/' :: rest) =
      some parsed) : parsed.netloc = CANONICAL_REGISTRY_HOST := by
  obtain ⟨rest', clean⟩ : ∃ rest', cleanUrl (text "https://" ++ CANONICAL_REGISTRY_HOST ++
      .ofChar '/' :: rest) = text "https" ++ .ofChar ':' :: (text "//" ++
        (CANONICAL_REGISTRY_HOST ++ .ofChar '/' :: rest')) := by
    refine ⟨rest.filter fun c =>
      c != .ofChar '\t' && c != .ofChar '\r' && c != .ofChar '\n', ?_⟩
    have start : (text "https://" ++ CANONICAL_REGISTRY_HOST ++ .ofChar '/' :: rest).dropWhile
        (fun c => c.val ≤ 32) = text "https://" ++ CANONICAL_REGISTRY_HOST ++ .ofChar '/' :: rest := by
      rfl
    have kept : (text "https://" ++ CANONICAL_REGISTRY_HOST).filter (fun c =>
        c != .ofChar '\t' && c != .ofChar '\r' && c != .ofChar '\n') =
          text "https://" ++ CANONICAL_REGISTRY_HOST := by decide
    rw [cleanUrl, start, List.filter_append, kept, List.filter_cons_of_pos (by decide)]
    simp [text]
  have scheme : splitScheme (text "https" ++ .ofChar ':' :: (text "//" ++
      (CANONICAL_REGISTRY_HOST ++ .ofChar '/' :: rest'))) =
        (text "https", text "//" ++ (CANONICAL_REGISTRY_HOST ++ .ofChar '/' :: rest')) := by
    rw [splitScheme, Text.partition_append _ (by decide)]
    simp +decide
  have inside : CANONICAL_REGISTRY_HOST.all (fun d => !endsNetloc d) = true := by decide
  have netloc := splitNetloc_append (.ofChar '/') rest' inside (by decide)
  simp only [urlsplit, clean, scheme, netloc] at h
  split at h
  · cases h
  · split at h
    · cases h
    · split at h
      · cases h
        rfl
      · cases h

def OnGitHub (lib : Library) (url : Text) : Prop :=
  ∃ parsed, urlsplit lib url = some parsed ∧ parsed.hostname lib = some (text "github.com")

/-- The mirror of a release is where the artifact store publishes it. -/
theorem expectedMirror_eq (module_id version : Text) :
    expectedMirror module_id version = canonical_public_artifact_url module_id version := by
  simp [expectedMirror, registryPath, canonical_public_artifact_url, Store.asPosix,
    Store.relativePath, Store.relativeParent, List.intercalate]
  rfl

theorem canonical_not_on_github (module_id version : Text) :
    ¬OnGitHub lib (canonical_public_artifact_url module_id version) := by
  rintro ⟨parsed, split, github⟩
  rw [← expectedMirror_eq] at split
  rw [hostname_registry (urlsplit_registry split)] at github
  exact absurd github (by decide)

/-! ## Accepted snapshots -/

theorem loadModules_ok {directory : Text} {seen : List Text} {files : List (Text × Text)}
    {modules : List Module} (h : loadModules lib directory seen files = .ok modules) :
    (∀ m ∈ modules, ValidModule lib m ∧ m.id ∉ seen) ∧ (modules.map (·.id)).Nodup := by
  induction files generalizing seen modules with
  | nil =>
      cases h
      simp
  | cons file rest ih =>
      obtain ⟨name, content⟩ := file
      simp only [loadModules, bind_ok, guard_ok error_ok] at h
      obtain ⟨document, -, module, accepted, fresh, -, others, passed, built⟩ := h
      cases built
      obtain ⟨valid, distinct⟩ := ih passed
      have new : module.id ∉ seen := by simpa using fresh
      rw [List.forall_mem_cons, List.map_cons, List.nodup_cons]
      refine ⟨⟨⟨(validate_module_sound accepted).1, new⟩, fun m mem => ?_⟩, ?_, distinct⟩
      · exact ⟨(valid m mem).1, fun old => (valid m mem).2 (List.mem_cons_of_mem _ old)⟩
      · intro again
        obtain ⟨m, mem, same⟩ := List.mem_map.mp again
        exact (valid m mem).2 (by rw [same]; exact List.mem_cons_self)

/-- The modules of a source tree are valid, and each has its own id. -/
theorem load_registry_ok {root : RegistryRoot} {modules : List Module}
    (h : load_registry lib root = .ok modules) :
    (∀ m ∈ modules, ValidModule lib m) ∧ (modules.map (·.id)).Nodup := by
  unfold load_registry at h
  split at h
  · cases h
  · simp only [bind_ok] at h
    obtain ⟨_, -, _, -, _, -, loaded, passed, built⟩ := h
    cases built
    obtain ⟨valid, distinct⟩ := loadModules_ok passed
    refine ⟨fun m mem => (valid m ((StableSort.mem_sortBy _).mp mem)).1, ?_⟩
    exact (((StableSort.perm_sortBy _ loaded).map _).nodup_iff).mpr distinct

/-- A source tree that `load_registry` has accepted -/
structure Snapshot (lib : Library) where
  root : RegistryRoot
  modules : List Module
  accepted : load_registry lib root = .ok modules

namespace Snapshot

variable (s : Snapshot lib)

theorem valid : ∀ m ∈ s.modules, ValidModule lib m := (load_registry_ok s.accepted).1

theorem distinct : (s.modules.map (·.id)).Nodup := (load_registry_ok s.accepted).2

/-- A release is published as part of a module. -/
def Published (m : Module) (r : Release) : Prop := m ∈ s.modules ∧ r ∈ m.versions

theorem module_unique {m m' : Module} (mem : m ∈ s.modules) (mem' : m' ∈ s.modules)
    (same : m.id = m'.id) : m = m' :=
  List.inj_on_of_nodup_map s.distinct mem mem' same

end Snapshot

theorem ValidModule.release_unique {m : Module} (h : ValidModule lib m) {r r' : Release}
    (mem : r ∈ m.versions) (mem' : r' ∈ m.versions) (same : r.version = r'.version) : r = r' :=
  List.inj_on_of_nodup_map h.distinct mem mem' same

/-! ## What a history keeps -/

/-- The identity and provenance of a module -/
structure SameProvenance (m m' : Module) : Prop where
  id : m'.id = m.id
  publisher : m'.publisher.id = m.publisher.id
  classification : m'.classification = m.classification
  source_repository : m'.source_repository = m.source_repository
  license : m'.license = m.license

/-- A release and what it may become: the same value, but for a move of its URL from GitHub to
    the registry -/
structure SameRelease (lib : Library) (module_id : Text) (r r' : Release) : Prop where
  version : r'.version = r.version
  value : (r'.withUrl r.artifact.url).equal r = true
  url : r'.artifact.url = r.artifact.url ∨
    OnGitHub lib r.artifact.url ∧
      r'.artifact.url = canonical_public_artifact_url module_id r.version

structure Keeps (lib : Library) (m m' : Module) : Prop where
  provenance : SameProvenance m m'
  releases : ∀ r ∈ m.versions, ∃ r' ∈ m'.versions, SameRelease lib m.id r r'

/-- Every module of one list is still there in the other. -/
def Extends (lib : Library) (base next : List Module) : Prop :=
  ∀ m ∈ base, ∃ m' ∈ next, Keeps lib m m'

theorem equal_iff {a b : Release} : a.equal b = true ↔ a.value = b.value := by
  simp [Release.equal]

@[simp] theorem value_withUrl (r : Release) (url : Text) :
    (r.withUrl url).value = r.value.withUrl url := rfl

@[simp] theorem withUrl_withUrl (r : Release) (url url' : Text) :
    (r.withUrl url).withUrl url' = r.withUrl url' := rfl

@[simp] theorem withUrl_own (r : Release) : r.withUrl r.artifact.url = r := rfl

@[simp] theorem value_value (r : Release) : r.value.value = r.value := rfl

theorem SameProvenance.trans {a b c : Module} (first : SameProvenance a b)
    (second : SameProvenance b c) : SameProvenance a c where
  id := second.id.trans first.id
  publisher := second.publisher.trans first.publisher
  classification := second.classification.trans first.classification
  source_repository := second.source_repository.trans first.source_repository
  license := second.license.trans first.license

theorem SameRelease.sha256 {module_id : Text} {r r' : Release}
    (h : SameRelease lib module_id r r') : r'.artifact.sha256 = r.artifact.sha256 := by
  have value := congrArg (fun v : Release => v.artifact.sha256) (equal_iff.mp h.value)
  exact value

theorem SameRelease.refl (module_id : Text) (r : Release) : SameRelease lib module_id r r where
  version := rfl
  value := equal_iff.mpr rfl
  url := .inl rfl

/-- The registry's URL is not on GitHub, so no release moves twice. -/
theorem SameRelease.trans {module_id : Text} {a b c : Release}
    (first : SameRelease lib module_id a b) (second : SameRelease lib module_id b c) :
    SameRelease lib module_id a c where
  version := second.version.trans first.version
  value := by
    have ab := equal_iff.mp first.value
    have bc := congrArg (·.withUrl a.artifact.url) (equal_iff.mp second.value)
    rw [value_withUrl, withUrl_withUrl] at bc
    rw [equal_iff, value_withUrl, bc, ← ab, value_withUrl]
  url := by
    rcases first.url with stay | ⟨github, moved⟩ <;> rcases second.url with stay' | ⟨github', moved'⟩
    · exact .inl (stay'.trans stay)
    · exact .inr ⟨stay ▸ github', first.version ▸ moved'⟩
    · exact .inr ⟨github, stay'.trans moved⟩
    · rw [moved] at github'
      exact absurd github' (canonical_not_on_github _ _)

/-- A URL that has moved stays where it is. -/
theorem SameRelease.moved_once {module_id : Text} {a b c : Release}
    (first : SameRelease lib module_id a b) (second : SameRelease lib module_id b c)
    (moved : b.artifact.url ≠ a.artifact.url) : c.artifact.url = b.artifact.url := by
  rcases second.url with stay | ⟨github, -⟩
  · exact stay
  · rcases first.url with same | ⟨-, canonical⟩
    · exact absurd same moved
    · rw [canonical] at github
      exact absurd github (canonical_not_on_github _ _)

theorem Keeps.trans {a b c : Module} (first : Keeps lib a b) (second : Keeps lib b c) :
    Keeps lib a c where
  provenance := first.provenance.trans second.provenance
  releases r mem := by
    obtain ⟨r', mem', kept⟩ := first.releases r mem
    obtain ⟨r'', mem'', kept'⟩ := second.releases r' mem'
    rw [first.provenance.id] at kept'
    exact ⟨r'', mem'', kept.trans kept'⟩

theorem Extends.trans {a b c : List Module} (first : Extends lib a b) (second : Extends lib b c) :
    Extends lib a c := by
  intro m mem
  obtain ⟨m', mem', kept⟩ := first m mem
  obtain ⟨m'', mem'', kept'⟩ := second m' mem'
  exact ⟨m'', mem'', kept.trans kept'⟩

theorem Extends.refl (modules : List Module) : Extends lib modules modules :=
  fun m mem => ⟨m, mem, ⟨rfl, rfl, rfl, rfl, rfl⟩, fun r inModule => ⟨r, inModule, .refl _ r⟩⟩

/-! ## One step -/

theorem mirror_promotion_ok {module_id : Text} {proposed published : Release}
    (h : _is_mirror_promotion lib module_id proposed published = .ok true) :
    OnGitHub lib published.artifact.url ∧
      proposed.artifact.url = canonical_public_artifact_url module_id published.version ∧
      (proposed.withUrl published.artifact.url).equal published = true := by
  unfold _is_mirror_promotion at h
  split at h
  · cases h
  · rename_i parsed split
    split at h
    · cases h
    · rename_i allowed
      rw [not_or, not_not, not_not] at allowed
      exact ⟨⟨parsed, split, allowed.1⟩, allowed.2.trans (expectedMirror_eq _ _), by simpa using h⟩

theorem keepsRelease_ok {module_id : Text} {current : List Release} {base_release : Release}
    (h : keepsRelease lib module_id (Table.ofList (current.map fun r => (r.version, r)))
      base_release = .ok ()) :
    ∃ r ∈ current, SameRelease lib module_id base_release r := by
  unfold keepsRelease at h
  split at h
  · cases h
  · rename_i release found
    obtain ⟨r, mem, here⟩ := List.mem_map.mp (Table.mem_of_get_ofList found)
    obtain ⟨version, rfl⟩ := Prod.mk.inj here
    refine ⟨r, mem, ?_⟩
    split at h
    · rename_i same
      have value := equal_iff.mp same
      have url := congrArg (fun v : Release => v.artifact.url) value
      have url : r.artifact.url = base_release.artifact.url := url
      exact ⟨version, by rw [← url]; exact same, .inl url⟩
    · rw [bind_ok] at h
      obtain ⟨promoted, checked, h⟩ := h
      cases promoted with
      | false => cases h
      | true =>
          obtain ⟨github, canonical, value⟩ := mirror_promotion_ok checked
          exact ⟨version, value, .inr ⟨github, canonical⟩⟩

theorem unchanged_ok {a b message : Text}
    (h : (if a = b then .ok () else .error (.validation message) : Checked Unit) = .ok ()) :
    a = b := by
  split at h
  · assumption
  · cases h

theorem Classification.name_injective : Function.Injective Classification.name := by
  rintro (_ | _) (_ | _) same <;> first | rfl | exact absurd same (by decide)

theorem provenance_ok {current published : Module}
    (h : _validate_module_provenance_immutability current published = .ok ())
    (id : current.id = published.id) : SameProvenance published current := by
  simp only [_validate_module_provenance_immutability, guard_ok error_ok, not_not, forM_ok,
    PROTECTED_MODULE_FIELDS, List.forall_mem_cons] at h
  obtain ⟨publisher, classification, source, license, -⟩ := h
  exact ⟨id, publisher, Classification.name_injective (unchanged_ok classification),
    unchanged_ok source, unchanged_ok license⟩

/-- The step lemma: an accepted successor extends its base. -/
theorem validate_immutability_ok {current base : List Module}
    (h : validate_immutability lib current base = .ok ()) : Extends lib base current := by
  intro m mem
  have kept := forM_ok.mp h m mem
  unfold keepsModule at kept
  split at kept
  · cases kept
  · rename_i found there
    obtain ⟨m', mem', here⟩ := List.mem_map.mp (Table.mem_of_get_ofList there)
    obtain ⟨id, rfl⟩ := Prod.mk.inj here
    obtain ⟨provenance, releases⟩ := check_ok.mp kept
    exact ⟨m', mem', provenance_ok provenance id,
      fun r inModule => keepsRelease_ok (forM_ok.mp releases r inModule)⟩

/-! ## New releases -/

theorem checkVersions_ok {versions : List Text} (h : ∀ v ∈ versions, IsSemver v) :
    checkVersions versions = .ok () := by
  have none : versions.find? (fun v => (semver_key v).isNone) = none := by
    rw [List.find?_eq_none]
    intro v mem
    have known := h v mem
    simpa [semver_key, IsSemver, Option.isSome_iff_ne_none] using known
  simp only [checkVersions, none]

theorem mem_identities {modules : List Module} {id version : Text} :
    (id, version) ∈ identities modules ↔ ∃ m ∈ modules, m.id = id ∧
      ∃ r ∈ m.versions, r.version = version := by
  simp only [identities, List.mem_flatMap, List.mem_map, Prod.mk.injEq]
  grind

theorem mem_newCandidates {current : Snapshot lib} {published : List (Text × Text)}
    {c : ReleaseCandidate} : c ∈ newCandidates current.modules published ↔
      ∃ m r, current.Published m r ∧ (m.id, r.version) ∉ published ∧ c = .of m r := by
  simp only [newCandidates, List.mem_flatMap, List.mem_map, List.mem_filter, Bool.not_eq_true',
    List.contains_eq_mem, decide_eq_false_iff_not, Snapshot.Published]
  grind

/-- `find_new_releases` returns every release of the current snapshot whose identity is not in
    the base, and nothing else. -/
theorem find_new_releases_ok (current : Snapshot lib) (base : List Module) :
    ∃ candidates, find_new_releases current.modules base = .ok candidates ∧
      ∀ c, c ∈ candidates ↔ ∃ m r, current.Published m r ∧ (m.id, r.version) ∉ identities base ∧
        c = .of m r := by
  have versions : ∀ v ∈ (newCandidates current.modules (identities base)).map (·.version),
      IsSemver v := by
    intro v mem
    obtain ⟨c, new, rfl⟩ := List.mem_map.mp mem
    obtain ⟨m, r, ⟨inModules, inVersions⟩, -, rfl⟩ := mem_newCandidates.mp new
    exact ((current.valid m inModules).releases r inVersions).version
  have built : find_new_releases current.modules base =
      .ok (sortBy candidateKey (newCandidates current.modules (identities base))) := by
    rw [find_new_releases, checkVersions_ok versions, ok_bind]
  refine ⟨_, built, fun c => ?_⟩
  rw [StableSort.mem_sortBy, mem_newCandidates]

theorem verify_release_candidates_ok {host : HostVerifier} {candidates : List ReleaseCandidate}
    (h : verify_release_candidates host candidates = .ok ()) :
    ∀ c ∈ candidates, host.downloader c = .ok c.expected_sha256 := by
  intro c mem
  unfold verify_release_candidates at h
  split at h
  · simp_all
  · cases checkout : host.validate_checkout with
    | error e => simp [checkout, bind, Except.bind] at h
    | ok _ =>
        rw [checkout] at h
        have passed := forM_ok.mp h c mem
        cases arrived : host.downloader c with
        | error e => simp [verifyCandidate, arrived, bind, Except.bind] at passed
        | ok actual =>
            by_cases same : actual = c.expected_sha256
            · rw [same]
            · simp [verifyCandidate, arrived, bind, Except.bind, same] at passed

/-! ## Whole histories -/

def Snapshot.Succeeds (base next : Snapshot lib) : Prop :=
  validate_immutability lib next.modules base.modules = .ok ()

/-- The digests of all releases of a snapshot -/
def digests (modules : List Module) : List (Text × Text × Text) :=
  modules.flatMap fun m => m.versions.map fun r => (m.id, r.version, r.artifact.sha256)

/-- A new digest was found when its version first appeared, and the gate of that step has
    downloaded it. -/
def PassedGate (history : List (Snapshot lib)) (j : Nat) (id version sha256 : Text) : Prop :=
  ∃ n base next candidates, n + 1 ≤ j ∧ history[n]? = some base ∧ history[n + 1]? = some next ∧
    (∀ i s, i ≤ n → history[i]? = some s → (id, version) ∉ identities s.modules) ∧
    (id, version) ∈ identities next.modules ∧
    find_new_releases next.modules base.modules = .ok candidates ∧
    ∃ c ∈ candidates, c.module_id = id ∧ c.version = version ∧ c.expected_sha256 = sha256 ∧
      ∀ host, verify_release_candidates host candidates = .ok () →
        host.downloader c = .ok sha256

structure AppendOnly (history : List (Snapshot lib)) : Prop where
  kept : ∀ (i j : Nat) base later, i ≤ j → history[i]? = some base → history[j]? = some later →
    ∀ m r, base.Published m r →
      ∃ m' r', later.Published m' r' ∧ m'.id = m.id ∧ r'.version = r.version
  provenance : ∀ (i j : Nat) base later, i ≤ j → history[i]? = some base →
    history[j]? = some later → ∀ m ∈ base.modules, ∀ m' ∈ later.modules, m'.id = m.id →
      SameProvenance m m'
  release : ∀ (i j : Nat) base later, i ≤ j → history[i]? = some base →
    history[j]? = some later → ∀ m r m' r', base.Published m r → later.Published m' r' →
      m'.id = m.id → r'.version = r.version → SameRelease lib m.id r r'
  moved_once : ∀ (i j k : Nat) a b c, i ≤ j → j ≤ k → history[i]? = some a →
    history[j]? = some b → history[k]? = some c → ∀ m r m' r' m'' r'', a.Published m r →
      b.Published m' r' → c.Published m'' r'' → m'.id = m.id → m''.id = m.id →
      r'.version = r.version → r''.version = r.version → r'.artifact.url ≠ r.artifact.url →
      r''.artifact.url = r'.artifact.url
  gate : ∀ (j : Nat) later, history[j]? = some later → ∀ m r, later.Published m r →
    (∀ first, history[0]? = some first →
      (m.id, r.version, r.artifact.sha256) ∉ digests first.modules) →
    PassedGate history j m.id r.version r.artifact.sha256

theorem extends_later {history : List (Snapshot lib)} (h : history.IsChain Snapshot.Succeeds)
    {i j : Nat} {base later : Snapshot lib} (order : i ≤ j) (at_ : history[i]? = some base)
    (at' : history[j]? = some later) : Extends lib base.modules later.modules := by
  have trans : IsTrans (Snapshot lib) fun s t => Extends lib s.modules t.modules :=
    ⟨fun _ _ _ => Extends.trans⟩
  have steps : history.IsChain fun s t => Extends lib s.modules t.modules :=
    h.imp fun _ _ accepted => validate_immutability_ok accepted
  have pairs := List.pairwise_iff_getElem.mp (List.isChain_iff_pairwise.mp steps)
  obtain ⟨inI, rfl⟩ := List.getElem?_eq_some_iff.mp at_
  obtain ⟨inJ, rfl⟩ := List.getElem?_eq_some_iff.mp at'
  rcases Nat.eq_or_lt_of_le order with rfl | before
  · exact .refl _
  · exact pairs i j inI inJ before

/-- Two published releases of one identity, the second in an extension of the first's snapshot -/
theorem Extends.same {base later : Snapshot lib} (h : Extends lib base.modules later.modules)
    {m m' : Module} {r r' : Release} (first : base.Published m r) (second : later.Published m' r')
    (id : m'.id = m.id) (version : r'.version = r.version) : SameRelease lib m.id r r' := by
  obtain ⟨n, inLater, kept⟩ := h m first.1
  obtain rfl := later.module_unique second.1 inLater (id.trans kept.provenance.id.symm)
  obtain ⟨r'', inVersions, same⟩ := kept.releases r first.2
  obtain rfl := (later.valid _ inLater).release_unique second.2 inVersions
    (version.trans same.version.symm)
  exact same

def roadsRoot (versions : List Release) : RegistryRoot where
  path := text "registry"
  envelope := some (Json.canonical_json (.obj [(text "schema_version", .int 1)]))
  modules := Table.ofList
    [(text "roads.json", Json.canonical_json (.obj (roadsModule versions).toDict))]

def roadsBefore : Snapshot plainLibrary where
  root := roadsRoot [roadsOnGitHub]
  modules := [roadsModule [roadsOnGitHub]]
  accepted := by decide +kernel

def roadsAfter : Snapshot plainLibrary where
  root := roadsRoot [roadsMirrored (text "1.0.0"), roadsMirrored (text "1.1.0")]
  modules := [roadsModule [roadsMirrored (text "1.0.0"), roadsMirrored (text "1.1.0")]]
  accepted := by decide +kernel

end PackageRegistry
