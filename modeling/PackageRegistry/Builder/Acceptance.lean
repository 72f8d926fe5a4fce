import PackageRegistry.Builder.Gates

/-! # What the builder accepts, and the registry

A candidate that has passed every gate of the builder is accepted by `validate_candidate`
when its tag is portable, and only then.
-/

namespace PackageRegistry.Builder

open Checks

variable {lib : Library} {pkg : Packaging}

theorem artifact_of_id {c : CodePoint}
    (h : c.isLower = true ∨ c.isDigit = true ∨ c = .ofChar '-') : isArtifactChar c = true := by
  rcases h with lower | digit | rfl
  · simp [isArtifactChar, lower]
  · simp [isArtifactChar, digit]
  · rfl

/-- The artifact of a version has a name that the registry accepts when the tag has neither
    upper case letters nor build metadata. -/
theorem artifact_of_tag {module_id tag : Text} (id : MODULE_ID_RE module_id = true)
    (tagged : TAG_RE tag = true) :
    (∀ c ∈ module_id ++ text "-" ++ tag.tail, isArtifactChar c = true) ↔
      (∀ c ∈ tag, c.isUpper = false) ∧ .ofChar '+' ∉ tag := by
  cases tag with
  | nil => cases tagged
  | cons v version =>
      obtain ⟨rfl, -⟩ := tag_parts tagged
      have chars := tag_chars tagged
      rw [List.tail_cons] at chars ⊢
      have split : (∀ c ∈ module_id ++ text "-" ++ version, isArtifactChar c = true) ↔
          ∀ c ∈ version, isArtifactChar c = true := by
        simp only [List.forall_mem_append]
        exact ⟨fun h => h.2, fun h => ⟨⟨fun c mem => artifact_of_id (id_chars id c mem),
          List.all_eq_true.mp (by decide)⟩, h⟩⟩
      rw [split, List.forall_mem_cons, List.mem_cons, not_or]
      constructor
      · intro h
        refine ⟨⟨by decide, fun c mem => ?_⟩, by decide, fun mem => ?_⟩
        · exact ((artifact_char_iff (chars c mem)).mp (h c mem)).1
        · exact ((artifact_char_iff (chars _ mem)).mp (h _ mem)).2 rfl
      · rintro ⟨⟨-, lower⟩, -, plain⟩ c mem
        exact (artifact_char_iff (chars c mem)).mpr ⟨lower c mem, fun same => plain (same ▸ mem)⟩

theorem tag_eq {tag : Text} (tagged : TAG_RE tag = true) : text "v" ++ tag.tail = tag := by
  cases tag with
  | nil => cases tagged
  | cons v version =>
      obtain ⟨rfl, -⟩ := tag_parts tagged
      rfl

/-- A dictionary holds a record, whose objects may have been sorted. -/
structure Recorded (f : Findings) (value : Dict) : Prop where
  keys : ∀ key, key ∈ value.map (·.1) ↔ key ∈ f.candidate.map (·.1)
  field : ∀ (position : Nat) {key : String} {v : Json},
    f.candidate[position]? = some (text key, v) → get value key = v ∨ get value key = v.sortKeys

theorem Findings.recorded_self (f : Findings) : Recorded f f.candidate :=
  ⟨fun _ => Iff.rfl, fun _ _ _ here => .inl (f.recorded _ here)⟩

/-- Numbers, texts and booleans are not sorted. -/
theorem Recorded.flat {f : Findings} {value : Dict} (recorded : Recorded f value) (position : Nat)
    {key : String} {v : Json} (here : f.candidate[position]? = some (text key, v))
    (flat : v.sortKeys = v) : get value key = v :=
  (recorded.field position here).elim id fun sorted => sorted.trans flat

theorem Recorded.number {f : Findings} {value : Dict} (recorded : Recorded f value)
    (position : Nat) {key : String} {v : Json} {i : Int}
    (here : f.candidate[position]? = some (text key, v)) (same : Json.equal v (.int i) = true) :
    Json.equal (get value key) (.int i) = true := by
  rcases recorded.field position here with plain | sorted
  · rw [plain, same]
  · rw [sorted, Json.equal_sortKeys_left, same]

theorem Recorded.required {f : Findings} {value : Dict} (recorded : Recorded f value) :
    hasKeys (value.filter fun g => g.1 != text "build_environment") REQUIRED = true := by
  have names : (f.candidate.map (·.1)).filter (· != text "build_environment") = REQUIRED := by
    rw [f.keys]
    decide
  rw [hasKeys_iff]
  intro key
  rw [keys_filter, List.mem_filter, recorded.keys key, ← names, List.mem_filter]

/-- A candidate is accepted when the registry accepts its version and the name of its
    artifact. -/
theorem Passed.accepted_iff {outside : Outside} {module_id tag : Text} {f : Findings}
    (passed : Passed lib outside module_id tag f) {value : Dict} (recorded : Recorded f value)
    (environment : validateEnvironment lib outside.environment_policy value = .ok ()) :
    Accepted lib outside.config outside.environment_policy value ↔
      (SEMVER_RE f.identity.version).isSome = true ∧
        ARTIFACT_RE (text "github-actions://run/" ++ f.run_id ++ text "/" ++
          (f.identity.policy.module_id ++ text "-" ++ f.identity.version)) = true := by
  constructor
  · intro accepted
    obtain ⟨version, named, semver⟩ := accepted.version
    obtain ⟨artifact, referenced, shape⟩ := accepted.artifact_candidate
    cases (recorded.flat 2 rfl rfl).symm.trans named
    cases (recorded.flat 11 rfl rfl).symm.trans referenced
    exact ⟨semver, shape⟩
  · rintro ⟨version, artifact⟩
    obtain ⟨policies, loaded, allowed⟩ := passed.allowlisted
    obtain ⟨version_one, classified⟩ := load_policies_ok loaded
    obtain ⟨module, known⟩ := passed.known
    have same := (classified _ _ allowed).1
    have one : Json.equal (.int 1) (.int 1) = true := Json.equal_of_numeric rfl rfl
    exact {
      keys := recorded.required
      allowed := ⟨f.builder_version, policies, f.identity.policy.module_id, f.identity.policy,
        loaded, recorded.flat 1 rfl rfl, by rw [same, allowed], recorded.flat 4 rfl rfl⟩
      classification := by rw [recorded.flat 3 rfl rfl, (classified _ _ allowed).2]
      schema_version := recorded.number 0 rfl one
      builder_version := recorded.number 7 rfl version_one
      bundle_format_version := recorded.number 9 rfl one
      version := ⟨_, recorded.flat 2 rfl rfl, version⟩
      source_tag := by
        rw [recorded.flat 5 rfl rfl, recorded.flat 2 rfl rfl, passed.source_tag, passed.version]
        exact congrArg Json.str (tag_eq passed.tag_re).symm
      source_commit := ⟨_, recorded.flat 6 rfl rfl, passed.commit⟩
      builder_commit := ⟨_, recorded.flat 8 rfl rfl, passed.builder_commit ▸ builder_commit_ok _⟩
      bundle_sha256 := ⟨_, recorded.flat 10 rfl rfl, f.digest.wellFormed⟩
      reproducible := recorded.flat 12 rfl rfl
      host_contract := recorded.flat 13 rfl rfl
      registry_status := ⟨_, recorded.flat 16 rfl rfl, by rw [known.status]; split <;> simp⟩
      planned_channel := ⟨_, recorded.flat 14 rfl rfl, passed.channel⟩
      requires := (recorded.field 15 rfl).elim (fun h => ⟨_, h⟩) fun h => ⟨_, h⟩
      environment := environment
      artifact_candidate := ⟨_, recorded.flat 11 rfl rfl, artifact⟩ }

theorem Passed.environment_accepted {outside : Outside} {module_id tag : Text} {f : Findings}
    (passed : Passed lib outside module_id tag f)
    (conforming : Conforming outside.environment_policy outside.machine) :
    validateEnvironment lib outside.environment_policy f.candidate = .ok () := by
  obtain ⟨source, collected⟩ := passed.environment
  obtain ⟨host_commit, head, commit⟩ := passed.host
  have recorded : f.candidate.lookup (text "build_environment") = some (.obj f.environment) := rfl
  refine (validateEnvironment_ok recorded).mpr ⟨conforming.meets collected, ?_, ?_⟩
  · rw [collected_builder_commit collected, f.recorded 8 rfl, passed.builder_commit]
    exact (Json.equal_str _ _).mpr rfl
  · rw [collected_host_commit collected head]
    exact commit

/-- The three expressions that a version meets agree on the portable tags, and there alone. -/
theorem Passed.accepted_iff_portable {outside : Outside} {module_id tag : Text} {f : Findings}
    (passed : Passed lib outside module_id tag f) {value : Dict} (recorded : Recorded f value)
    (environment : validateEnvironment lib outside.environment_policy value = .ok ())
    (numeric : f.run_id ≠ []) (digits : ∀ c ∈ f.run_id, c.isDigit = true) :
    Accepted lib outside.config outside.environment_policy value ↔ Portable tag := by
  obtain ⟨module, known⟩ := passed.known
  have named : f.identity.policy.module_id ++ text "-" ++ tag.tail ≠ [] := by simp [text]
  rw [passed.accepted_iff recorded environment,
    artifact_re_run numeric digits (passed.version ▸ named), passed.version,
    artifact_of_tag known.module_id passed.tag_re, semver_of_tag passed.tag_re]
  constructor
  · intro h
    exact ⟨h.2.1, h.2.2, h.1⟩
  · intro h
    exact ⟨h.no_zeros, h.lowercase, h.no_build⟩

/-- A candidate of the builder is accepted, and its version too, exactly when its tag has no
    upper case letter, no build metadata and no leading zero in its prerelease. -/
theorem registry_accepts_iff_portable {outside : Outside}
    {module_id tag run_id planned_channel : Text} {candidate : Dict} (origin : Text)
    (conforming : Conforming outside.environment_policy outside.machine)
    (numeric : run_id ≠ []) (digits : ∀ c ∈ run_id, c.isDigit = true)
    (built : orchestrate lib pkg outside module_id tag run_id planned_channel = .ok candidate) :
    ((∃ value, validate_candidate lib outside.config outside.environment_policy
        (.obj candidate) = .ok value) ∧
      ∃ version, validate_semver (get candidate "version") origin = .ok version) ↔
      Portable tag := by
  obtain ⟨f, passed, rfl, -, rfl⟩ := orchestrate_ok built
  simp only [validate_candidate_ok, validate_semver, semver_ok, f.recorded 2 rfl,
    passed.accepted_iff_portable f.recorded_self (passed.environment_accepted conforming)
      numeric digits]
  constructor
  · rintro ⟨⟨_, -, portable⟩, -⟩
    exact portable
  · intro portable
    have semver : IsSemver f.identity.version := by
      rw [IsSemver, passed.version, semver_of_tag passed.tag_re]
      exact portable.no_zeros
    exact ⟨⟨_, rfl, portable⟩, f.identity.version, rfl, semver⟩

/-! ## A run -/

/-- Enough of `packaging` for versions that are spelled alike and for no specifiers -/
def plainPackaging : Packaging where
  Version := Text
  order := inferInstance
  version := some
  SpecifierSet := Unit
  specifierSet _ := some ()
  contains _ _ := true
  canonicalize_name := id

def roadsPolicy : Json :=
  .obj [(text "repository", .str (text "oklabflensburg/roads")),
    (text "classification", .str (text "first-party")),
    (text "publisher", .str (text "oklab")), (text "license", .str (text "MIT")),
    (text "host_contract", .obj [(text "services", .arr [])])]

def roadsConfig : Document :=
  .ok (.obj [(text "builder_version", .int 1),
    (text "modules", .obj [(text "roads", roadsPolicy)])])

def roadsManifest (version : Text) : Dict :=
  [(text "id", .str (text "roads")), (text "version", .str version),
    (text "backend", .obj [(text "package", .str (text "ocp-roads"))]),
    (text "requires", .obj [(text "host", .str (text ">=1.0.0"))])]

def roadsCheckout (version : Text) : Checkout where
  commit := List.replicate 40 (.ofChar 'c')
  head := List.replicate 40 (.ofChar 'c')
  epoch := 0
  module_yaml := .ok (.obj (roadsManifest version))
  project := .ok (.obj [(text "name", .str (text "ocp-roads")), (text "version", .str version)])
  package_json := .error []
  module_json := .error []
  has_frontend := false

def roadsBuild (version : Text) : Build where
  wheel := .ok (text "ocp-roads", version)
  frontend := .ok ()
  bundle := .ok ⟨List.replicate 64 (.ofChar 'a'), by decide⟩

def builderMachine : Machine where
  python := text "3.12.14"
  uv := .ok (text "0.12.5")
  node := .ok (text "22.22.3")
  host_python := .ok (text "3.12.14")
  pnpm := .ok (text "11.22.0")
  host_commit := .ok (List.replicate 40 (.ofChar 'e'))
  repository_head := .ok (List.replicate 40 (.ofChar 'f'))
  zlib := text "1.3.1"
  os := text "Linux"
  architecture := text "x86_64"
  runner_image := text "local"
  lockfiles := []

def builderPolicy : Dict :=
  [(text "python", .str (text "3.12.14")), (text "uv", .str (text "0.12.5")),
    (text "node", .str (text "22.22.3")), (text "pnpm", .str (text "11.22.0")),
    (text "umask", .str (text "0022")), (text "timezone", .str (text "UTC")),
    (text "locale", .str (text "C.UTF-8")), (text "pythonhashseed", .str (text "0"))]

/-- What the builder finds when the release `version` of the module `roads` is in order -/
def roadsOutside (version : Text) (records : List Json) : Outside where
  config := roadsConfig
  environment_policy := builderPolicy
  contract := .ok (.obj [
    (text "OCP_HOST_VERIFIER_REPOSITORY", .str (text "oklabflensburg/open-city-planner")),
    (text "OCP_HOST_VERIFIER_REF", .str (List.replicate 40 (.ofChar 'e')))])
  host_installed := true
  first_fetch := .ok (roadsCheckout version)
  second_fetch := .ok (roadsCheckout version)
  machine := builderMachine
  first_build := roadsBuild version
  second_build := roadsBuild version
  records := records
  registry := roadsRoot [roadsOnGitHub]
  host_verifier := .ok ()
  host_lifecycle _ := .ok ()

theorem roads_conforming (version : Text) (records : List Json) :
    Conforming (roadsOutside version records).environment_policy
      (roadsOutside version records).machine where
  plain := by
    change Json.Plain (.obj builderPolicy)
    exact ⟨by decide, by simp [builderPolicy, Json.PlainFields, Json.Plain]⟩
  agrees := by
    intro host_commit head f mem expected found
    have unnamed : (observed builderMachine (List.replicate 40 (.ofChar 'e'))).all
        (fun f => (builderPolicy.lookup f.1).isNone) = true := by decide
    cases (show .ok (List.replicate 40 (.ofChar 'e')) = Except.ok host_commit from head)
    have absent := Option.isNone_iff_eq_none.mp (List.all_eq_true.mp unnamed f mem)
    cases absent.symm.trans found

def roadsModulePolicy : ModulePolicy :=
  ⟨text "roads", text "oklabflensburg/roads", text "first-party"⟩

def roadsIdentity (tag : Text) : SourceIdentity :=
  ⟨roadsModulePolicy, tag, tag.tail, List.replicate 40 (.ofChar 'c'), 0⟩

theorem roads_manifest (version : Text) :
    _mapping (roadsCheckout version).module_yaml "module.yaml" = .ok (roadsManifest version) := rfl

theorem roads_valid (tag : Text) : validate_source plainLibrary plainPackaging
    (roadsCheckout tag.tail) (roadsIdentity tag) = .ok () := by
  have id : get (roadsManifest tag.tail) "id" = .str (text "roads") := rfl
  have version : get (roadsManifest tag.tail) "version" = .str tag.tail := rfl
  have backend : get (roadsManifest tag.tail) "backend" =
    .obj [(text "package", .str (text "ocp-roads"))] := rfl
  have frontend : get (roadsManifest tag.tail) "frontend" = .null := rfl
  have project : (roadsCheckout tag.tail).project =
    .ok (.obj [(text "name", .str (text "ocp-roads")), (text "version", .str tag.tail)]) := rfl
  have built : get [(text "name", .str (text "ocp-roads")), (text "version", .str tag.tail)]
    "version" = .str tag.tail := rfl
  have name : get [(text "name", .str (text "ocp-roads")), (text "version", .str tag.tail)]
    "name" = .str (text "ocp-roads") := rfl
  have package : get [(text "package", .str (text "ocp-roads"))] "package" =
    .str (text "ocp-roads") := rfl
  have parsed (v : Text) : parseVersion plainPackaging v = .ok v := rfl
  have same : Json.equal (.str (text "roads")) (.str (text "roads")) = true := by simp
  simp only [validate_source, roads_manifest, ok_bind, id, version, backend, frontend, project,
    built, name, package, str, fieldsOf, parsed, roadsIdentity, roadsModulePolicy, same, ne_eq,
    not_true_eq_false, Bool.true_eq_false, if_false]
  exact if_neg (not_not.mpr rfl)

theorem roads_prepared {tag : Text} (tagged : TAG_RE tag = true) :
    prepare_checkout plainLibrary plainPackaging roadsModulePolicy tag
      (.ok (roadsCheckout tag.tail)) = .ok (roadsIdentity tag, roadsCheckout tag.tail) := by
  have commit : COMMIT_RE (roadsCheckout tag.tail).commit = true :=
    (by decide : COMMIT_RE (List.replicate 40 (.ofChar 'c')) = true)
  have head : (roadsCheckout tag.tail).head = (roadsCheckout tag.tail).commit := rfl
  rw [prepare_checkout, parse_tag, if_pos tagged, ok_bind, run, ok_bind, commit, if_neg (by decide),
    head, if_neg (not_not.mpr rfl)]
  exact congrArg (· >>= fun _ => _) (roads_valid tag)

def roadsEnvironment : Dict :=
  update (update builderPolicy (versions builderMachine (text "0.12.5") (text "22.22.3") none))
    (observed builderMachine (List.replicate 40 (.ofChar 'e')))

theorem roads_collected (version : Text) :
    collect_environment plainLibrary builderPolicy builderMachine (roadsCheckout version) =
      .ok roadsEnvironment := rfl

theorem roads_policies :
    load_policies roadsConfig = .ok (.int 1, [(text "roads", roadsModulePolicy)]) := rfl

theorem roads_build (tag : Text) :
    build_once plainPackaging (roadsCheckout tag.tail) (roadsBuild tag.tail) (roadsIdentity tag) =
      .ok ⟨List.replicate 64 (.ofChar 'a'), by decide⟩ := by
  rw [build_once]
  exact if_neg (not_not.mpr rfl)

theorem roads_loaded :
    loadRegistry plainLibrary (roadsRoot [roadsOnGitHub]) = .ok [roadsModule [roadsOnGitHub]] := by
  have read : load_registry plainLibrary (roadsRoot [roadsOnGitHub]) =
    .ok [roadsModule [roadsOnGitHub]] := roadsBefore.accepted
  rw [loadRegistry, read]
  rfl

theorem roads_lifecycle (version : Text) (records : List Json) :
    run_host_lifecycle plainLibrary plainPackaging (roadsOutside version records)
      (roadsCheckout version) = .ok () := by
  have requires : (roadsManifest version).lookup (text "requires") =
    some (.obj [(text "host", .str (text ">=1.0.0"))]) := rfl
  rw [run_host_lifecycle, roads_manifest, ok_bind, _dependency_candidates]
  have registry : (roadsOutside version records).registry = roadsRoot [roadsOnGitHub] := rfl
  rw [registry, roads_loaded, ok_bind, requires]
  rfl

def roadsFindings (tag registry_status : Text) : Findings where
  identity := roadsIdentity tag
  builder_version := .int 1
  requires := [(text "host", .str (text ">=1.0.0"))]
  digest := ⟨List.replicate 64 (.ofChar 'a'), by decide⟩
  builder_commit := List.replicate 40 (.ofChar 'f')
  run_id := text "7"
  planned_channel := text "beta"
  registry_status := registry_status
  environment := roadsEnvironment

theorem roads_status {tag : Text} (fresh : (tag.tail == text "1.0.0") = false) :
    check_registry_immutability plainLibrary (roadsRoot [roadsOnGitHub]) (roadsIdentity tag)
      (List.replicate 64 (.ofChar 'a')) = .ok (text "new") := by
  have found : [roadsModule [roadsOnGitHub]].find? (·.id == (roadsIdentity tag).policy.module_id) =
    some (roadsModule [roadsOnGitHub]) := rfl
  have absent : registered (roadsModule [roadsOnGitHub]) (roadsIdentity tag).version = none := by
    rw [registered, List.find?_eq_none]
    intro release mem
    rw [List.mem_singleton.mp mem]
    have version : roadsOnGitHub.version = text "1.0.0" := rfl
    rw [version, Bool.beq_comm, roadsIdentity, fresh]
    exact Bool.false_ne_true
  rw [check_registry_immutability, roads_loaded, ok_bind]
  simp [found, absent]

theorem roads_run {tag registry_status : Text} {records : List Json} (tagged : TAG_RE tag = true)
    (history : check_candidate_history records (roadsIdentity tag)
      (List.replicate 64 (.ofChar 'a')) (.int 1) = .ok ())
    (status : check_registry_immutability plainLibrary (roadsRoot [roadsOnGitHub])
      (roadsIdentity tag) (List.replicate 64 (.ofChar 'a')) = .ok registry_status)
    (encodable : ∀ s ∈ Json.strings (.obj (roadsFindings tag registry_status).candidate),
      Text.Encodable s) :
    orchestrate plainLibrary plainPackaging (roadsOutside tag.tail records) (text "roads") tag
      (text "7") (text "beta") = .ok (roadsFindings tag registry_status).candidate := by
  have allowed : [(text "roads", roadsModulePolicy)].lookup (text "roads") =
    some roadsModulePolicy := rfl
  have config : (roadsOutside tag.tail records).config = roadsConfig := rfl
  have host : validate_host_verifier_checkout (roadsOutside tag.tail records).contract
    (roadsOutside tag.tail records).machine.host_commit (roadsOutside tag.tail records).host_installed =
      .ok () := rfl
  have first : (roadsOutside tag.tail records).first_fetch = .ok (roadsCheckout tag.tail) := rfl
  have second : (roadsOutside tag.tail records).second_fetch = .ok (roadsCheckout tag.tail) := rfl
  have environment : collect_environment plainLibrary (roadsOutside tag.tail records).environment_policy
    (roadsOutside tag.tail records).machine (roadsCheckout tag.tail) = .ok roadsEnvironment :=
    roads_collected tag.tail
  rw [orchestrate, config, roads_policies, ok_bind]
  dsimp only
  rw [allowed]
  dsimp only
  rw [host, ok_bind, first, second, roads_prepared tagged, ok_bind]
  dsimp only
  rw [environment, ok_bind, ok_bind, if_neg (not_not.mpr rfl)]
  have built : build_once plainPackaging (roadsCheckout tag.tail)
    (roadsOutside tag.tail records).first_build (roadsIdentity tag) = _ := roads_build tag
  have again : (roadsOutside tag.tail records).second_build = (roadsOutside tag.tail records).first_build := rfl
  rw [again, built, ok_bind, ok_bind, if_neg (not_not.mpr rfl)]
  have same : (roadsOutside tag.tail records).records = records := rfl
  have registry : (roadsOutside tag.tail records).registry = roadsRoot [roadsOnGitHub] := rfl
  have verifier : (roadsOutside tag.tail records).host_verifier = .ok () := rfl
  rw [record, same, history, ok_bind, verifier, ok_bind, roads_lifecycle, ok_bind, if_neg (by decide),
    registry, status]
  obtain ⟨candidate, created, complete⟩ :=
    create_candidate_ok (roadsFindings tag registry_status) (roads_manifest tag.tail) rfl
      (List.replicate 40 (.ofChar 'f'))
  have made : create_candidate (roadsCheckout tag.tail).module_yaml (roadsIdentity tag)
    (List.replicate 64 (.ofChar 'a')) (.int 1)
    (builder_commit (roadsOutside tag.tail records).machine.repository_head) (text "7") (text "beta") =
      .ok candidate := created
  rw [made, ok_bind, ok_bind]
  exact (congrArg written complete).trans (if_pos ((Json.encodable_canonical_json _).mpr encodable))

def betaTag : Text := text "v0.4.0-rc.1"

def metadataTag : Text := text "v1.2.3-rc.1+build.2"

theorem beta_run :
    orchestrate plainLibrary plainPackaging (roadsOutside betaTag.tail []) (text "roads") betaTag
      (text "7") (text "beta") = .ok (roadsFindings betaTag (text "new")).candidate :=
  roads_run (by decide) rfl (roads_status (by decide)) (by decide)

theorem roads_beta_accepted :
    ((∃ value, validate_candidate plainLibrary (roadsOutside betaTag.tail []).config
        (roadsOutside betaTag.tail []).environment_policy
        (.obj (roadsFindings betaTag (text "new")).candidate) = .ok value) ∧
      ∃ version, validate_semver (get (roadsFindings betaTag (text "new")).candidate
        "version") (text "candidate") = .ok version) ↔ Portable betaTag :=
  registry_accepts_iff_portable (text "candidate") (roads_conforming betaTag.tail []) (by decide)
    (List.all_eq_true.mp (by decide)) beta_run

/-- A tag with build metadata passes every gate of the builder, and its candidate is refused. -/
theorem metadata_refused :
    Conforming (roadsOutside metadataTag.tail []).environment_policy
      (roadsOutside metadataTag.tail []).machine ∧
    orchestrate plainLibrary plainPackaging (roadsOutside metadataTag.tail []) (text "roads")
        metadataTag (text "7") (text "beta") =
      .ok (roadsFindings metadataTag (text "new")).candidate ∧
    ∀ value, validate_candidate plainLibrary (roadsOutside metadataTag.tail []).config
      (roadsOutside metadataTag.tail []).environment_policy
      (.obj (roadsFindings metadataTag (text "new")).candidate) ≠ .ok value := by
  refine ⟨roads_conforming metadataTag.tail [],
    roads_run (by decide) rfl (roads_status (by decide)) (by decide), ?_⟩
  intro value accepted
  obtain ⟨artifact, referenced, shape⟩ := (validate_candidate_ok.mp accepted).2.artifact_candidate
  rw [(roadsFindings metadataTag (text "new")).recorded 11 rfl, Json.str.injEq] at referenced
  rw [← referenced] at shape
  exact absurd shape (by decide)

end PackageRegistry.Builder
