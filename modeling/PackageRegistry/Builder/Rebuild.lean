import PackageRegistry.Builder.Acceptance

/-! # Rebuilding a release

`store_candidate` on the record of a later run, when a candidate of the same release has
been stored.
-/

namespace PackageRegistry.Builder

open Checks

variable {lib : Library} {pkg : Packaging} {config : Document} {environment_policy : Dict}

/-! ## Records that are read back -/

/-- A record after it has been written and read -/
def reread (value : Dict) : Dict := Json.byKey (Json.sortFields value)

theorem parsed_canonical {value : Dict} (plain : Json.Plain (.obj value)) :
    parsed lib (some (Json.canonical_json (.obj value))) = .ok (.obj (reread value)) := by
  rw [parsed, Json.loads_canonical_json plain]
  rfl

theorem lookup_reread {value : Dict} (plain : Json.Plain (.obj value)) (key : Text) :
    (reread value).lookup key = (value.lookup key).map Json.sortKeys :=
  Json.lookup_sorted plain.1 key

theorem get_reread {value : Dict} (plain : Json.Plain (.obj value)) (key : String) :
    get (reread value) key = (get value key).sortKeys := by
  rw [get, get, lookup_reread plain]
  cases value.lookup (text key) <;> rfl

theorem keys_reread (value : Dict) (key : Text) :
    key ∈ (reread value).map (·.1) ↔ key ∈ value.map (·.1) := by
  have keys : (Json.sortFields value).map (·.1) = value.map (·.1) := by
    rw [Json.sortFields_eq, List.map_map]
    rfl
  rw [reread, ((Json.byKey_perm (Json.sortFields value)).map _).mem_iff, keys]

theorem meetsPolicy_reread {environment : Dict} (plain : Json.Plain (.obj environment))
    (h : meetsPolicy environment_policy environment = true) :
    meetsPolicy environment_policy (reread environment) = true := by
  rw [meetsPolicy, List.all_eq_true] at h ⊢
  intro item mem
  rw [lookup_reread plain, ← h item mem]
  cases environment.lookup item.1 with
  | none => rfl
  | some v => exact Json.equal_sortKeys_left v item.2

theorem Findings.recorded_reread {f : Findings} (plain : Json.Plain (.obj f.candidate)) :
    Recorded f (reread f.candidate) :=
  ⟨keys_reread f.candidate, fun position key v here => .inr <| by
    rw [get_reread plain, f.recorded position here]⟩

theorem Passed.environment_reread {outside : Outside} {module_id tag : Text} {f : Findings}
    (passed : Passed lib outside module_id tag f) (plain : Json.Plain (.obj f.candidate))
    (conforming : Conforming outside.environment_policy outside.machine) :
    validateEnvironment lib outside.environment_policy (reread f.candidate) = .ok () := by
  obtain ⟨source, collected⟩ := passed.environment
  obtain ⟨host_commit, head, commit⟩ := passed.host
  have inside : Json.Plain (.obj f.environment) :=
    (Json.plainFields_iff f.candidate).mp plain.2 (text "build_environment", .obj f.environment)
      (List.mem_of_getElem? (i := 17) rfl)
  have recorded : (reread f.candidate).lookup (text "build_environment") =
      some (.obj (reread f.environment)) := by
    rw [lookup_reread plain]
    rfl
  refine (validateEnvironment_ok recorded).mpr
    ⟨meetsPolicy_reread inside (conforming.meets collected), ?_, ?_⟩
  · rw [get_reread inside, collected_builder_commit collected, (Findings.recorded_reread plain).flat 8 rfl rfl,
      passed.builder_commit]
    exact (Json.equal_str _ _).mpr rfl
  · rw [lookup_reread inside, collected_host_commit collected head]
    exact commit

/-! ## What is compared -/

/-- The release of a version is in the registry. -/
def Registered (lib : Library) (root : RegistryRoot) (module_id version : Text) : Prop :=
  ∃ modules module, load_registry lib root = .ok modules ∧
    modules.find? (·.id == module_id) = some module ∧ (registered module version).isSome = true

theorem Known.registered_iff {root : RegistryRoot} {identity : SourceIdentity}
    {digest status : Text} {module : Module}
    (known : Known lib root identity digest status module) :
    (registered module identity.version).isSome = true ↔
      Registered lib root identity.policy.module_id identity.version := by
  obtain ⟨modules, loaded, found⟩ := known.loaded
  constructor
  · intro h
    exact ⟨modules, module, loaded, found, h⟩
  · intro ⟨others, other, again, named, h⟩
    cases loaded.symm.trans again
    cases found.symm.trans named
    exact h

/-- Of the two statuses the record has the one that a stored candidate has, if that one
    still tells whether the release is registered. -/
theorem Known.same_status {root : RegistryRoot} {identity : SourceIdentity}
    {digest status stored : Text} {module : Module}
    (known : Known lib root identity digest status module)
    (either : stored ∈ [text "new", text "already-registered"]) :
    stored = status ↔ (stored = text "already-registered" ↔
      Registered lib root identity.policy.module_id identity.version) := by
  have different : text "new" ≠ text "already-registered" := by decide
  rw [← known.registered_iff, known.status]
  simp only [List.mem_cons, List.not_mem_nil, or_false] at either
  rcases either with rfl | rfl
  · split
    · rename_i here
      simp [different, here]
    · rename_i absent
      simp [different, absent]
  · split
    · rename_i here
      simp [here]
    · rename_i absent
      simp [different.symm, absent]

/-- A record of the history agrees on the release, its source and its artifact. -/
theorem checkRecord_iff {identity : SourceIdentity} {digest : Text} {version : Json}
    {stored : Dict} :
    checkRecord identity digest version (.obj stored) = .ok () ↔
      (get stored "module_id" = .str identity.policy.module_id ∧
        get stored "version" = .str identity.version ∧
        get stored "source_repository" = .str identity.policy.source_url) ∧
      get stored "source_commit" = .str identity.commit ∧
        Json.equal (get stored "builder_version") version = true ∧
        get stored "bundle_sha256" = .str digest := by
  rw [checkRecord, fieldsOf, ok_bind, guard_ok checks_refuse, guard_ok checks_refuse,
    and_iff_left rfl]
  simp only [Bool.not_eq_false, Bool.and_eq_true, Json.equal_str, and_assoc]

/-- The fields that `store_candidate` compares -/
theorem comparable_fields_eq : comparable_fields =
    [text "schema_version", text "module_id", text "version", text "classification",
      text "source_repository", text "source_tag", text "source_commit", text "builder_version",
      text "bundle_format_version", text "bundle_sha256", text "reproducible",
      text "host_contract", text "planned_channel", text "requires", text "registry_status"] := by
  decide

/-- A stored candidate agrees with a later record of the same release in every field that is
    compared, but for the status. -/
theorem Passed.compared_iff {outside : Outside} {module_id tag : Text} {f : Findings}
    (passed : Passed lib outside module_id tag f) (plain : Json.Plain (.obj f.candidate))
    {stored : Dict} (accepted : Accepted lib config environment_policy stored)
    (seen : .obj stored ∈ outside.records)
    (channel : get stored "planned_channel" = .str f.planned_channel)
    (requirements : Json.equal (get stored "requires") (.obj f.requires) = true) :
    (∀ field ∈ comparable_fields, Json.equal ((stored.lookup field).getD .null)
        (((reread f.candidate).lookup field).getD .null) = true) ↔
      get stored "registry_status" = .str f.registry_status := by
  obtain ⟨policies, loaded, allowed⟩ := passed.allowlisted
  obtain ⟨version_one, classified⟩ := load_policies_ok loaded
  obtain ⟨⟨id, version, repository⟩, commit, builder, digest⟩ :=
    checkRecord_iff.mp (passed.history _ seen)
  have recorded := Findings.recorded_reread plain
  have one : Json.equal (.int 1) (.int 1) = true := Json.equal_of_numeric rfl rfl
  have number {key : String} (left : Json.equal (get stored key) (.int 1) = true)
      (right : Json.equal (get (reread f.candidate) key) (.int 1) = true) :
      Json.equal (get stored key) (get (reread f.candidate) key) = true :=
    Json.equal_trans_int left right
  have label {key : String} {s : Text} (left : get stored key = .str s)
      (right : get (reread f.candidate) key = .str s) :
      Json.equal (get stored key) (get (reread f.candidate) key) = true := by
    rw [left, right]
    simp
  have tag : get stored "source_tag" = .str f.identity.tag := by
    rw [accepted.source_tag, version, passed.source_tag, passed.version]
    exact congrArg Json.str (tag_eq passed.tag_re)
  have first_party : get stored "classification" = .str f.identity.policy.classification := by
    rw [accepted.classification, (classified _ _ allowed).2]
  have reproducible : Json.equal (get stored "reproducible")
      (get (reread f.candidate) "reproducible") = true := by
    rw [accepted.reproducible, recorded.flat 12 rfl rfl]
    exact Json.equal_of_numeric rfl rfl
  have requires : Json.equal (get stored "requires") (get (reread f.candidate) "requires") = true := by
    have inside : Json.Plain (.obj f.requires) :=
      (Json.plainFields_iff f.candidate).mp plain.2 (text "requires", .obj f.requires)
        (List.mem_of_getElem? (i := 15) rfl)
    rw [get_reread plain, f.recorded 15 rfl, Json.equal_sortKeys_right _ inside, requirements]
  have status : Json.equal (get stored "registry_status")
      (get (reread f.candidate) "registry_status") = true ↔
        get stored "registry_status" = .str f.registry_status := by
    rw [recorded.flat 16 rfl rfl, Json.equal_str]
  rw [comparable_fields_eq]
  simp only [List.forall_mem_cons, List.not_mem_nil, false_implies, implies_true, and_true]
  constructor
  · intro h
    exact status.mp h.2.2.2.2.2.2.2.2.2.2.2.2.2.2
  · intro h
    exact ⟨number accepted.schema_version (recorded.number 0 rfl one),
      label id (recorded.flat 1 rfl rfl), label version (recorded.flat 2 rfl rfl),
      label first_party (recorded.flat 3 rfl rfl), label repository (recorded.flat 4 rfl rfl),
      label tag (recorded.flat 5 rfl rfl), label commit (recorded.flat 6 rfl rfl),
      number accepted.builder_version (recorded.number 7 rfl version_one),
      number accepted.bundle_format_version (recorded.number 9 rfl one),
      label digest (recorded.flat 10 rfl rfl), reproducible,
      label accepted.host_contract (recorded.flat 13 rfl rfl),
      label channel (recorded.flat 14 rfl rfl), requires, status.mpr h⟩

/-! ## The second run -/

/-- A source that is not accepted is not stored. -/
theorem store_candidate_refused {source : Option Text} {tree : Tree} {path : List Text}
    (refused : ∀ value,
      parsed lib source >>= validate_candidate lib config environment_policy ≠ .ok value) :
    store_candidate lib config environment_policy source tree ≠ (.ok (path, false), tree) := by
  intro stored
  rw [store_candidate] at stored
  split at stored
  · cases stored
  · rename_i value accepted
    exact refused value accepted

/-- Beside a stored candidate only the fields that are compared decide. -/
theorem store_candidate_existing {source content : Option Text} {tree : Tree}
    {value existing : Dict} {module_id version : Text}
    (accepted : parsed lib source >>= validate_candidate lib config environment_policy = .ok value)
    (id : get value "module_id" = .str module_id) (named : get value "version" = .str version)
    (here : tree [module_id, version, text "provenance.json"] = some (.file content))
    (read : parsed lib content = .ok (.obj existing)) :
    store_candidate lib config environment_policy source tree =
        (.ok ([module_id, version, text "provenance.json"], false), tree) ↔
      ∀ field ∈ comparable_fields, Json.equal ((existing.lookup field).getD .null)
        ((value.lookup field).getD .null) = true := by
  rw [store_candidate, accepted]
  dsimp only
  rw [id, named]
  dsimp only
  rw [here]
  dsimp only
  rw [read, Prod.mk.injEq, and_iff_left rfl, ok_bind, check_ok, compare_candidate, fieldsOf, ok_bind,
    demand_ok, List.all_eq_true, and_iff_left rfl]

/-- A later run for a release whose candidate is stored leaves it as it is and names its path,
    exactly when its tag is portable and the status that was stored still tells whether the
    release is in the registry. -/
theorem rebuild_reuses_iff {outside : Outside} {module_id tag run_id planned_channel : Text}
    {candidate stored document : Dict} {content : Option Text} {tree : Tree}
    (conforming : Conforming outside.environment_policy outside.machine)
    (numeric : run_id ≠ []) (digits : ∀ c ∈ run_id, c.isDigit = true)
    (built : orchestrate lib pkg outside module_id tag run_id planned_channel = .ok candidate)
    (plain : Json.Plain (.obj candidate))
    (here : tree [module_id, tag.tail, text "provenance.json"] = some (.file content))
    (read : parsed lib content = .ok (.obj stored))
    (accepted : validate_candidate lib config environment_policy (.obj stored) = .ok document)
    (seen : .obj stored ∈ outside.records)
    (channel : get stored "planned_channel" = .str planned_channel)
    (requirements : Json.equal (get stored "requires") (get candidate "requires") = true) :
    store_candidate lib outside.config outside.environment_policy
        (some (Json.canonical_json (.obj candidate))) tree =
        (.ok ([module_id, tag.tail, text "provenance.json"], false), tree) ↔
      Portable tag ∧ (get stored "registry_status" = .str (text "already-registered") ↔
        Registered lib outside.registry module_id tag.tail) := by
  obtain ⟨f, passed, rfl, rfl, rfl⟩ := orchestrate_ok built
  obtain ⟨rfl, valid⟩ := validate_candidate_ok.mp accepted
  obtain ⟨policies, loaded, allowed⟩ := passed.allowlisted
  have named : f.identity.policy.module_id = module_id :=
    ((load_policies_ok loaded).2 _ _ allowed).1
  have recorded := Findings.recorded_reread plain
  have portable := passed.accepted_iff_portable recorded
    (passed.environment_reread plain conforming) numeric digits
  rw [← portable]
  by_cases fits : Accepted lib outside.config outside.environment_policy (reread f.candidate)
  · have source : parsed lib (some (Json.canonical_json (.obj f.candidate))) >>=
        validate_candidate lib outside.config outside.environment_policy =
          .ok (reread f.candidate) := by
      rw [parsed_canonical plain, ok_bind]
      exact validate_candidate_ok.mpr ⟨rfl, fits⟩
    obtain ⟨status, recordedStatus, either⟩ := valid.registry_status
    obtain ⟨module, known⟩ := passed.known
    rw [f.recorded 15 rfl] at requirements
    rw [store_candidate_existing source (named ▸ recorded.flat 1 rfl rfl)
        (passed.version ▸ recorded.flat 2 rfl rfl) here read,
      passed.compared_iff plain valid seen channel requirements, recordedStatus, Json.str.injEq,
      Json.str.injEq, known.same_status either, named, passed.version]
    exact (and_iff_right fits).symm
  · refine iff_of_false (store_candidate_refused fun value found => ?_) fun h => fits h.1
    rw [parsed_canonical plain, ok_bind] at found
    exact fits (validate_candidate_ok.mp found).2

/-! ## Two runs -/

theorem roads_environment_plain : Json.Plain (.obj roadsEnvironment) := by
  refine plain_update (plain_update (roads_conforming [] []).plain fun f mem => ?_) ?_
  · obtain ⟨version, same⟩ := versions_str mem
    rw [same]
    trivial
  · simp [observed, builderMachine, Json.Plain, Json.PlainFields]

theorem roads_plain (tag registry_status : Text) :
    Json.Plain (.obj (roadsFindings tag registry_status).candidate) := by
  refine ⟨?_, ?_⟩
  · rw [Findings.keys]
    decide
  · have environment := roads_environment_plain
    simpa [Findings.candidate, roadsFindings, Json.PlainFields, Json.Plain] using environment

/-- The tree with the record of a run -/
def roadsTree (tag registry_status : Text) : Tree :=
  put [text "roads", tag.tail, text "provenance.json"] (.file (some (Json.canonical_json
    (.obj (roadsFindings tag registry_status).candidate)))) fun _ => none

theorem roads_stored (tag registry_status : Text) :
    roadsTree tag registry_status [text "roads", tag.tail, text "provenance.json"] =
      some (.file (some (Json.canonical_json (.obj (roadsFindings tag registry_status).candidate)))) :=
  if_pos rfl

/-- The candidate of a release that was new -/
def roadsNew (tag : Text) : Dict := reread (roadsFindings tag (text "new")).candidate

def releasedTag : Text := text "v1.0.0"

theorem released_status :
    check_registry_immutability plainLibrary (roadsRoot [roadsOnGitHub]) (roadsIdentity releasedTag)
      (List.replicate 64 (.ofChar 'a')) = .ok (text "already-registered") := by
  rw [check_registry_immutability, roads_loaded, ok_bind]
  rfl

theorem roads_history (tag registry_status : Text) :
    check_candidate_history [.obj (reread (roadsFindings tag registry_status).candidate)]
      (roadsIdentity tag) (List.replicate 64 (.ofChar 'a')) (.int 1) = .ok () := by
  have recorded := Findings.recorded_reread (roads_plain tag registry_status)
  have one : Json.equal (.int 1) (.int 1) = true := Json.equal_of_numeric rfl rfl
  refine forM_ok.mpr fun record mem => ?_
  rw [List.mem_singleton.mp mem, checkRecord_iff]
  exact ⟨⟨recorded.flat 1 rfl rfl, recorded.flat 2 rfl rfl, recorded.flat 4 rfl rfl⟩,
    recorded.flat 6 rfl rfl, recorded.number 7 rfl one, recorded.flat 10 rfl rfl⟩

theorem roads_accepted {tag registry_status : Text}
    (passes : (validate_candidate plainLibrary roadsConfig builderPolicy
      (.obj (reread (roadsFindings tag registry_status).candidate))).toOption.isSome = true) :
    validate_candidate plainLibrary roadsConfig builderPolicy
      (.obj (reread (roadsFindings tag registry_status).candidate)) =
        .ok (reread (roadsFindings tag registry_status).candidate) := by
  cases here : validate_candidate plainLibrary roadsConfig builderPolicy
    (.obj (reread (roadsFindings tag registry_status).candidate)) with
  | error failure => rw [here] at passes; cases passes
  | ok document => rw [(validate_candidate_ok.mp here).1]

/-- The same tag is built again. -/
theorem beta_again :
    store_candidate plainLibrary (roadsOutside betaTag.tail [.obj (roadsNew betaTag)]).config
        (roadsOutside betaTag.tail [.obj (roadsNew betaTag)]).environment_policy
        (some (Json.canonical_json (.obj (roadsFindings betaTag (text "new")).candidate)))
        (roadsTree betaTag (text "new")) =
      (.ok ([text "roads", betaTag.tail, text "provenance.json"], false),
        roadsTree betaTag (text "new")) ↔
    Portable betaTag ∧
      (get (roadsNew betaTag) "registry_status" = .str (text "already-registered") ↔
        Registered plainLibrary (roadsOutside betaTag.tail [.obj (roadsNew betaTag)]).registry
          (text "roads") betaTag.tail) :=
  rebuild_reuses_iff (roads_conforming betaTag.tail _) (by decide)
    (List.all_eq_true.mp (by decide))
    (roads_run (by decide) (roads_history betaTag (text "new"))
      (roads_status (by decide)) (by decide))
    (roads_plain betaTag (text "new")) (roads_stored betaTag (text "new"))
    (parsed_canonical (roads_plain betaTag (text "new"))) (roads_accepted (by decide))
    List.mem_cons_self
    ((Findings.recorded_reread (roads_plain betaTag (text "new"))).flat 14 rfl rfl)
    (by decide)

/-- The candidate of a new release is stored, then the release is registered, and the record of
    the same run is refused. -/
theorem registered_release_refused :
    validate_candidate plainLibrary roadsConfig builderPolicy (.obj (roadsNew releasedTag)) =
      .ok (roadsNew releasedTag) ∧
    orchestrate plainLibrary plainPackaging
        (roadsOutside releasedTag.tail [.obj (roadsNew releasedTag)]) (text "roads") releasedTag
        (text "7") (text "beta") =
      .ok (roadsFindings releasedTag (text "already-registered")).candidate ∧
    store_candidate plainLibrary roadsConfig builderPolicy (some (Json.canonical_json
        (.obj (roadsFindings releasedTag (text "already-registered")).candidate)))
        (roadsTree releasedTag (text "new")) ≠
      (.ok ([text "roads", releasedTag.tail, text "provenance.json"], false),
        roadsTree releasedTag (text "new")) := by
  refine ⟨roads_accepted (by decide), roads_run (by decide)
    (roads_history releasedTag (text "new")) released_status (by decide), ?_⟩
  have plain := roads_plain releasedTag (text "already-registered")
  have recorded := Findings.recorded_reread plain
  have before := Findings.recorded_reread (roads_plain releasedTag (text "new"))
  have source : parsed plainLibrary (some (Json.canonical_json
      (.obj (roadsFindings releasedTag (text "already-registered")).candidate))) >>=
      validate_candidate plainLibrary roadsConfig builderPolicy =
        .ok (reread (roadsFindings releasedTag (text "already-registered")).candidate) := by
    rw [parsed_canonical plain, ok_bind]
    exact roads_accepted (by decide)
  intro reused
  have same := (store_candidate_existing source (recorded.flat 1 rfl rfl) (recorded.flat 2 rfl rfl)
    (roads_stored releasedTag (text "new"))
    (parsed_canonical (roads_plain releasedTag (text "new")))).mp reused
    (text "registry_status") (by decide)
  change Json.equal (get _ "registry_status") (get _ "registry_status") = true at same
  rw [recorded.flat 16 rfl rfl, before.flat 16 rfl rfl, Json.equal_str, Json.str.injEq] at same
  exact absurd same (by decide)

end PackageRegistry.Builder
