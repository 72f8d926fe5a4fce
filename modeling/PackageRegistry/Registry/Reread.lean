import PackageRegistry.Registry.Channels

/-! # Dictionaries of modules

`validate_module` reads the dictionary of a module as this module, or not at all.
-/

namespace PackageRegistry

open Checks

variable {lib : Library}

theorem whenPresent_reread {value : Dict} {key : String} {check : Json → Checked Text}
    {field result : Option Text} (found : value.lookup (text key) = field.map .str)
    (reads : ∀ s t, check (.str s) = .ok t → t = s)
    (h : whenPresent value key check = .ok result) : result = field := by
  rw [whenPresent, found] at h
  cases field with
  | none =>
      cases h
      rfl
  | some s =>
      obtain ⟨t, passed, rfl⟩ := map_ok.mp h
      rw [reads s t passed]

theorem publisher_reread {publisher publisher' : Publisher} {origin : Text}
    (h : _validate_publisher (.obj publisher.toDict) origin = .ok publisher') :
    publisher' = publisher := by
  have atId : required publisher.toDict "id" = .str publisher.id := by
    simp +decide [required, Publisher.toDict]
  have atName : required publisher.toDict "name" = .str publisher.name := by
    simp +decide [required, Publisher.toDict, lookup_cons]
  simp only [_validate_publisher, bind_ok, canonical_id_ok, nonempty_string_ok, atId, atName,
    Json.str.injEq] at h
  obtain ⟨-, -, id, ⟨rfl, -⟩, name, ⟨rfl, -⟩, ⟨⟩⟩ := h
  rfl

theorem dependencies_reread {origin module_id : Text} {modules modules' : List (Text × Text)}
    (h : checkDependencies origin module_id (modules.map fun d => (d.1, .str d.2)) = .ok modules') :
    modules' = modules := by
  induction modules generalizing modules' with
  | nil =>
      cases h
      rfl
  | cons d rest ih =>
      simp only [List.map_cons, checkDependencies, bind_ok, canonical_id_ok, Json.str.injEq,
        guard_ok invalid_ok, version_range_ok] at h
      obtain ⟨_, ⟨rfl, -⟩, -, specifier, ⟨same, -⟩, others, passed, ⟨⟩⟩ := h
      rw [ih passed, ← same]

theorem requires_reread {origin module_id : Text} {requires requires' : Requires}
    (h : _validate_requires (.obj requires.toDict) origin module_id = .ok requires') :
    requires' = requires := by
  have atHost : required requires.toDict "host" = .str requires.host := by
    simp +decide [required, Requires.toDict]
  have atSdk : required requires.toDict "sdk" = .str requires.sdk := by
    simp +decide [required, Requires.toDict, lookup_cons]
  have atModules : required requires.toDict "modules" =
      .obj (dependenciesToDict requires.modules) := by
    simp +decide [required, Requires.toDict, lookup_cons]
  simp only [_validate_requires, bind_ok, version_range_ok, atHost, atSdk, atModules,
    Json.str.injEq] at h
  obtain ⟨-, -, host, ⟨rfl, -⟩, sdk, ⟨rfl, -⟩, modules, passed, ⟨⟩⟩ := h
  rw [dependencies_reread passed, Table.ofList_toList]

theorem release_reread {module_id origin : Text} {classification : Classification}
    {release release' : Release}
    (h : _validate_release lib (.obj release.toDict) origin module_id classification = .ok release') :
    release' = release := by
  have atRequired : required release.toDict "version" = .str release.version ∧
      required release.toDict "channel" = .str release.channel.name ∧
      required release.toDict "artifact" = .obj release.artifact.toDict ∧
      required release.toDict "bundle_format_version" = release.bundle_format_version.toJson ∧
      required release.toDict "source_commit" = .str release.source_commit ∧
      required release.toDict "requires" = .obj release.requires.toDict := by
    simp +decide [required, Release.toDict, List.lookup_append, lookup_optional, lookup_cons]
  obtain ⟨atVersion, atChannel, atArtifact, atFormat, atCommit, atRequires⟩ := atRequired
  have atUrl : required release.artifact.toDict "url" = .str release.artifact.url := by
    simp +decide [required, ReleaseArtifact.toDict, lookup_cons]
  have atSha256 : required release.artifact.toDict "sha256" = .str release.artifact.sha256 := by
    simp +decide [required, ReleaseArtifact.toDict]
  have atTag : release.toDict.lookup (text "source_tag") = release.source_tag.map .str := by
    simp +decide [Release.toDict, List.lookup_append, lookup_optional, lookup_cons]
  have format : bundleFormat release.bundle_format_version.toJson origin =
      .ok release.bundle_format_version := by
    cases release.bundle_format_version <;> simp [bundleFormat, One.toJson, isOne]
  simp only [_validate_release, check_ok] at h
  simp only [bind_ok, semver_ok, channelOf_ok, guard_ok invalid_ok, atVersion, atChannel, atArtifact,
    artifact_url_ok, hexString_ok, atUrl, atSha256, atCommit, atFormat, format, atRequires,
    Json.str.injEq, Except.ok.injEq] at h
  obtain ⟨-, version, ⟨rfl, -⟩, channel, sameChannel, -, -, -, url, ⟨rfl, -⟩, sha256, ⟨rfl, -⟩, _,
    rfl, commit, ⟨rfl, -⟩, tag, passedTag, requires, passed, rfl⟩ := h
  obtain rfl := Channel.name_injective sameChannel
  have sameTag := whenPresent_reread atTag (fun s t label => by
    rw [nonempty_string_ok, Json.str.injEq] at label
    exact label.1.symm) passedTag
  rw [requires_reread passed, sameTag]

theorem releases_reread {origin module_id : Text} {classification : Classification}
    {releases releases' : List Release} {position : Nat} {seen : List Text}
    (h : checkReleases lib origin module_id classification position seen
      (releases.map fun r => .obj r.toDict) = .ok releases') : releases' = releases := by
  induction releases generalizing position seen releases' with
  | nil =>
      cases h
      rfl
  | cons r rest ih =>
      simp only [List.map_cons, checkReleases, bind_ok, guard_ok error_ok] at h
      obtain ⟨first, passed, -, others, later, ⟨⟩⟩ := h
      rw [release_reread passed, ih later]

theorem optional_url_reread {value : Dict} {key : String} {origin : Text} {field result : Option Text}
    (found : value.lookup (text key) = field.map .str)
    (h : _optional_https_url lib value key origin = .ok result) : result = field := by
  refine whenPresent_reread found (fun s t passed => ?_) h
  obtain ⟨⟨_, parsed⟩, split, rfl⟩ := map_ok.mp passed
  rw [https_url_ok, Json.str.injEq] at split
  exact split.1.symm

theorem module_reread {module module' : Module} {origin : Text}
    (h : validate_module lib module.toDict origin none = .ok module') : module' = module := by
  have atRequired : required module.toDict "schema_version" = module.schema_version.toJson ∧
      required module.toDict "id" = .str module.id ∧
      required module.toDict "name" = .str module.name ∧
      required module.toDict "publisher" = .obj module.publisher.toDict ∧
      required module.toDict "classification" = .str module.classification.name ∧
      required module.toDict "source_repository" = .str module.source_repository ∧
      required module.toDict "license" = .str module.license ∧
      required module.toDict "versions" =
        .arr (module.versions.map fun release => .obj release.toDict) := by
    simp +decide [required, Module.toDict, List.lookup_append, lookup_optional, lookup_cons]
  have atOptional : module.toDict.lookup (text "description") = module.description.map .str ∧
      module.toDict.lookup (text "homepage") = module.homepage.map .str ∧
      module.toDict.lookup (text "documentation_url") = module.documentation_url.map .str := by
    simp +decide [Module.toDict, List.lookup_append, lookup_optional, lookup_cons]
  obtain ⟨atVersion, atId, atName, atPublisher, atClassification, atSource, atLicense,
    atVersions⟩ := atRequired
  obtain ⟨atDescription, atHomepage, atDocumentation⟩ := atOptional
  simp only [validate_module, check_ok] at h
  obtain ⟨-, h⟩ := h
  simp only [bind_ok, schema_version_ok, canonical_id_ok, guard_ok error_ok, guard_ok invalid_ok,
    nonempty_string_ok, classificationOf_ok, Prod.exists, https_url_ok, atVersion, atId, atName,
    atPublisher, atClassification, atSource, atLicense, atVersions, Json.str.injEq] at h
  obtain ⟨one, sameOne, id, ⟨rfl, -⟩, -, name, ⟨rfl, -⟩, description, readDescription, homepage,
    readHomepage, documentation, readDocumentation, publisher, readPublisher, classification,
    sameClassification, source, parsed, ⟨rfl, -⟩, -, license, ⟨rfl, -⟩, h⟩ := h
  split at h
  · rename_i first others same
    rw [Json.arr.injEq] at same
    rw [← same] at h
    obtain ⟨versions, passed, h⟩ := bind_ok.mp h
    obtain ⟨-, built⟩ := check_ok.mp h
    cases built
    obtain rfl : one = module.schema_version := by
      have read := isOne_eq.mpr sameOne
      rw [isOne_eq.mpr rfl] at read
      exact (Option.some.inj read).symm
    obtain rfl : classification = module.classification := by
      rcases classification <;> cases known : module.classification <;>
        simp +decide [known] at sameClassification ⊢
    have sameDescription := whenPresent_reread atDescription (fun s t label => by
      rw [nonempty_string_ok, Json.str.injEq] at label
      exact label.1.symm) readDescription
    rw [releases_reread passed, publisher_reread readPublisher, sameDescription,
      optional_url_reread atHomepage readHomepage,
      optional_url_reread atDocumentation readDocumentation]
  · cases h

/-- What is accepted of the dictionary of a module -/
theorem validate_toDict {module : Module} (origin : Text) :
    (∃ module', validate_module lib module.toDict origin none = .ok module') ↔
      ValidModule lib module := by
  constructor
  · rintro ⟨module', accepted⟩
    have valid := (validate_module_sound accepted).1
    rwa [module_reread accepted] at valid
  · exact fun valid => ⟨module, validate_module_complete valid origin⟩

/-! ## What a release was read from -/

/-- Where the parts of a release stand in its dictionary -/
structure ReadFrom (fields : Dict) (release : Release) : Prop where
  version : required fields "version" = .str release.version
  channel : required fields "channel" = .str release.channel.name
  artifact : ∃ artifact, required fields "artifact" = .obj artifact ∧
    required artifact "url" = .str release.artifact.url ∧
    required artifact "sha256" = .str release.artifact.sha256

theorem release_read {fields : Dict} {origin module_id : Text} {classification : Classification}
    {release : Release}
    (h : _validate_release lib (.obj fields) origin module_id classification = .ok release) :
    ReadFrom fields release := by
  simp only [_validate_release, check_ok] at h
  simp only [bind_ok, semver_ok, channelOf_ok, guard_ok invalid_ok] at h
  obtain ⟨-, version, ⟨atVersion, -⟩, channel, atChannel, -, h⟩ := h
  split at h
  · rename_i artifact atArtifact
    rw [check_ok] at h
    simp only [bind_ok, artifact_url_ok, hexString_ok] at h
    obtain ⟨-, url, ⟨atUrl, -⟩, sha256, ⟨atSha256, -⟩, _, -, _, -, _, -, _, -, built⟩ := h
    cases built
    exact ⟨atVersion, atChannel, artifact, atArtifact, atUrl, atSha256⟩
  · cases h

theorem versions_read {document : Dict} {origin : Text} {module : Module}
    (h : validate_module lib document origin none = .ok module) :
    ∃ values, required document "versions" = .arr values ∧
      checkReleases lib origin module.id module.classification 0 [] values = .ok module.versions := by
  simp only [validate_module, check_ok] at h
  obtain ⟨-, h⟩ := h
  simp only [bind_ok, guard_ok error_ok, guard_ok invalid_ok, Prod.exists] at h
  obtain ⟨one, -, id, -, -, name, -, description, -, homepage, -, documentation, -, publisher, -,
    classification, -, source, parsed, -, -, license, -, h⟩ := h
  split at h
  · rename_i first others atVersions
    obtain ⟨versions, passed, h⟩ := bind_ok.mp h
    obtain ⟨-, built⟩ := check_ok.mp h
    cases built
    exact ⟨first :: others, atVersions, passed⟩
  · cases h

end PackageRegistry
