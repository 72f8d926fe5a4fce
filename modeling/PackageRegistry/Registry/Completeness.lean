import PackageRegistry.Registry.Accepted

/-! # Valid modules are accepted

`validate_module` accepts the dictionary of every valid module, whatever the origin,
and returns this module.
-/

namespace PackageRegistry

open Checks

variable {lib : Library}

theorem whenPresent_optional {value : Dict} {key : String} {check : Json → Checked Text}
    {result : Option Text} (found : value.lookup (text key) = result.map .str)
    (passes : ∀ s, result = some s → check (.str s) = .ok s) :
    whenPresent value key check = .ok result := by
  cases result with
  | none => simp [whenPresent, found]
  | some s => simp [whenPresent, found, passes s rfl, Except.map]

/-! ## Schemas -/

theorem objectOf_of {names : List Text} {properties : List (Text × Schema)} {fields : Dict}
    (all : ∀ key ∈ names, key ∈ fields.map (·.1))
    (each : ∀ f ∈ fields, (properties.lookup f.1).any (fun check => check f.2) = true) :
    objectOf names properties (.obj fields) = true := by
  simp only [objectOf, Bool.and_eq_true, List.all_eq_true, List.contains_iff_mem]
  exact ⟨all, each⟩

theorem searched_of {pattern : Text → Bool} {t : Text} (h : pattern t = true) :
    searched pattern t = true := by
  simp [searched, h]

theorem idSchema_of {id : Text} (h : IsId id) : idSchema (.str id) = true := by
  obtain ⟨short, kebab⟩ := h
  have nonempty : 1 ≤ id.length := by
    cases id with
    | nil => exact absurd kebab (by decide)
    | cons => simp
  simp only [idSchema, string, Bool.and_eq_true, decide_eq_true_eq]
  exact ⟨⟨nonempty, short⟩, searched_of kebab⟩

theorem stringOf_label {maximum : Nat} {s : Text} (h : IsLabel maximum s) :
    stringOf 1 maximum (.str s) = true := by
  obtain ⟨nonempty, -, short⟩ := h
  simp only [stringOf, string, Bool.and_eq_true, decide_eq_true_eq]
  exact ⟨List.length_pos_of_ne_nil nonempty, short⟩

theorem constOne_toJson (one : One) : constOne one.toJson = true := by
  rw [constOne, isOne_eq.mpr rfl]
  rfl

theorem forall_mem_optional {key : Text} {value : Option Text} {P : Text × Json → Prop} :
    (∀ f ∈ optional key value, P f) ↔ ∀ s, value = some s → P (key, .str s) := by
  cases value <;> simp [optional]

theorem requiresSchema_of {module_id : Text} {requires : Requires} (host : IsRange requires.host)
    (sdk : IsRange requires.sdk)
    (modules : ∀ dependency specifier : Text, requires.modules[dependency]? = some specifier →
      IsId dependency ∧ dependency ≠ module_id ∧ IsRange specifier) :
    requiresSchema (.obj requires.toDict) = true := by
  have open_ : mappingOf (searched MODULE_ID_RE) versionRangeSchema
      (.obj (dependenciesToDict requires.modules)) = true := by
    refine List.all_eq_true.mpr fun f mem => ?_
    obtain ⟨d, inTable, rfl⟩ := List.mem_map.mp mem
    obtain ⟨id, -, range⟩ := modules d.1 d.2 ((Table.mem_toList _).mp inTable)
    exact Bool.and_eq_true_iff.mpr ⟨searched_of id.2, range.pattern⟩
  refine objectOf_of (by simp [Requires.toDict]) ?_
  simp +decide only [Requires.toDict, List.forall_mem_cons, lookup_cons, ↓reduceIte, Option.any_some]
  exact ⟨host.pattern, open_, sdk.pattern, by simp⟩

theorem release_schema {module_id : Text} {classification : Classification} {release : Release}
    (h : ValidRelease lib module_id classification release) :
    releaseSchema (.obj release.toDict) = true := by
  have artifact : objectOf [text "url", text "sha256"]
      [(text "url", httpsUrlSchema), (text "sha256", string (searched SHA256_RE))]
      (.obj release.artifact.toDict) = true := by
    refine objectOf_of (by simp [ReleaseArtifact.toDict]) ?_
    simp +decide only [ReleaseArtifact.toDict, List.forall_mem_cons, lookup_cons, ↓reduceIte,
      Option.any_some]
    exact ⟨searched_of h.sha256, h.https, by simp⟩
  have version : string (searched fun s => (SEMVER_RE s).isSome) (.str release.version) = true := by
    simp only [string, searched, Bool.or_eq_true]
    exact .inl h.version
  have channel : enum (CHANNELS.map Channel.name) (.str release.channel.name) = true := by
    cases release.channel <;> decide
  refine objectOf_of (by simp [Release.toDict]) ?_
  simp +decide only [Release.toDict, List.forall_mem_append, List.forall_mem_cons,
    forall_mem_optional, lookup_cons, ↓reduceIte, Option.any_some]
  exact ⟨⟨⟨artifact, constOne_toJson _, channel, requiresSchema_of h.host h.sdk h.modules,
    searched_of h.source_commit, by simp⟩, fun s known => stringOf_label (h.source_tag s known)⟩,
    version, by simp⟩

/-! ## Checks -/

theorem publisher_complete {publisher : Publisher} {origin : Text} (id : IsId publisher.id)
    (name : IsLabel 120 publisher.name) :
    _validate_publisher (.obj publisher.toDict) origin = .ok publisher := by
  have keys : _exact_keys publisher.toDict [text "id", text "name"] [text "id", text "name"] origin =
      .ok () := exact_keys_ok.mpr (by simp [Publisher.toDict])
  have atId : required publisher.toDict "id" = .str publisher.id := by
    simp +decide [required, Publisher.toDict]
  have atName : required publisher.toDict "name" = .str publisher.name := by
    simp +decide [required, Publisher.toDict, lookup_cons]
  simp only [_validate_publisher, bind_ok, canonical_id_ok, nonempty_string_ok, keys]
  exact ⟨(), trivial, publisher.id, ⟨atId, id⟩, publisher.name, ⟨atName, name⟩, rfl⟩

theorem dependencies_complete {origin module_id : Text} {modules : List (Text × Text)}
    (h : ∀ d ∈ modules, IsId d.1 ∧ d.1 ≠ module_id ∧ IsRange d.2) :
    checkDependencies origin module_id (modules.map fun d => (d.1, .str d.2)) = .ok modules := by
  induction modules with
  | nil => rfl
  | cons d rest ih =>
      obtain ⟨⟨id, other, range⟩, later⟩ := List.forall_mem_cons.mp h
      simp only [List.map_cons, checkDependencies, bind_ok, canonical_id_ok, version_range_ok,
        guard_ok invalid_ok, ih later]
      exact ⟨d.1, ⟨rfl, id⟩, other, d.2, ⟨rfl, range.clauses⟩, rest, rfl, rfl⟩

theorem requires_complete {origin module_id : Text} {requires : Requires}
    (host : IsRange requires.host) (sdk : IsRange requires.sdk)
    (modules : ∀ dependency specifier : Text, requires.modules[dependency]? = some specifier →
      IsId dependency ∧ dependency ≠ module_id ∧ IsRange specifier) :
    _validate_requires (.obj requires.toDict) origin module_id = .ok requires := by
  have keys : _exact_keys requires.toDict [text "host", text "sdk", text "modules"]
      [text "host", text "sdk", text "modules"] origin = .ok () :=
    exact_keys_ok.mpr (by simp [Requires.toDict])
  have atHost : required requires.toDict "host" = .str requires.host := by
    simp +decide [required, Requires.toDict]
  have atSdk : required requires.toDict "sdk" = .str requires.sdk := by
    simp +decide [required, Requires.toDict, lookup_cons]
  have atModules : required requires.toDict "modules" =
      .obj (dependenciesToDict requires.modules) := by
    simp +decide [required, Requires.toDict, lookup_cons]
  have passed : checkDependencies origin module_id (dependenciesToDict requires.modules) =
      .ok requires.modules.toList :=
    dependencies_complete fun d mem => modules d.1 d.2 ((Table.mem_toList _).mp mem)
  simp only [_validate_requires, bind_ok, version_range_ok, keys, atModules, passed]
  exact ⟨(), trivial, requires.host, ⟨atHost, host.clauses⟩, requires.sdk, ⟨atSdk, sdk.clauses⟩,
    _, rfl, by rw [Table.ofList_toList]⟩

theorem release_complete {module_id origin : Text} {classification : Classification}
    {release : Release} (h : ValidRelease lib module_id classification release) :
    _validate_release lib (.obj release.toDict) origin module_id classification = .ok release := by
  have keys : _exact_keys release.toDict RELEASE_KEYS REQUIRED_RELEASE_KEYS origin = .ok () := by
    rw [exact_keys_ok]
    cases known : release.source_tag <;>
      simp +decide [Release.toDict, optional, known, RELEASE_KEYS, REQUIRED_RELEASE_KEYS]
  have atRequired : required release.toDict "version" = .str release.version ∧
      required release.toDict "channel" = .str release.channel.name ∧
      required release.toDict "artifact" = .obj release.artifact.toDict ∧
      required release.toDict "bundle_format_version" = release.bundle_format_version.toJson ∧
      required release.toDict "source_commit" = .str release.source_commit ∧
      required release.toDict "requires" = .obj release.requires.toDict := by
    simp +decide [required, Release.toDict, List.lookup_append, lookup_optional, lookup_cons]
  obtain ⟨atVersion, atChannel, atArtifact, atFormat, atCommit, atRequires⟩ := atRequired
  have url : validate_artifact_url lib (required release.artifact.toDict "url") classification
      module_id release.version (origin ++ text ".artifact.url") = .ok release.artifact.url :=
    artifact_url_ok.mpr ⟨by simp +decide [required, ReleaseArtifact.toDict, lookup_cons], h.url⟩
  have sha256 : required release.artifact.toDict "sha256" = .str release.artifact.sha256 := by
    simp +decide [required, ReleaseArtifact.toDict]
  have artifactKeys : _exact_keys release.artifact.toDict [text "url", text "sha256"]
      [text "url", text "sha256"] (origin ++ text ".artifact") = .ok () :=
    exact_keys_ok.mpr (by simp [ReleaseArtifact.toDict])
  have format : bundleFormat release.bundle_format_version.toJson origin =
      .ok release.bundle_format_version := by
    cases release.bundle_format_version <;> simp [bundleFormat, One.toJson, isOne]
  have tag : _optional_string release.toDict "source_tag" origin 255 = .ok release.source_tag :=
    whenPresent_optional
      (by simp +decide [Release.toDict, List.lookup_append, lookup_optional, lookup_cons])
      fun s known => nonempty_string_ok.mpr ⟨rfl, h.source_tag s known⟩
  have requires : _validate_requires (.obj release.requires.toDict) (origin ++ text ".requires")
      module_id = .ok release.requires := requires_complete h.host h.sdk h.modules
  have released : ¬(release.channel = .stable ∧
      ((SEMVER_RE release.version).bind (·.prerelease)).isSome = true) := by
    rintro ⟨onStable, prerelease⟩
    simp [h.stable onStable] at prerelease
  simp only [_validate_release, ok_bind, keys, atVersion, atChannel, atArtifact, atFormat, atCommit,
    atRequires, semver_ok.mpr ⟨rfl, h.version⟩, channelOf_ok.mpr rfl, if_neg released, artifactKeys,
    url, hexString_ok.mpr ⟨sha256, h.sha256⟩, hexString_ok.mpr ⟨rfl, h.source_commit⟩, format, tag,
    requires]

theorem releases_complete {module_id origin : Text} {classification : Classification}
    {releases : List Release} (position : Nat) (seen : List Text)
    (valid : ∀ r ∈ releases, ValidRelease lib module_id classification r ∧ r.version ∉ seen)
    (distinct : (releases.map (·.version)).Nodup) :
    checkReleases lib origin module_id classification position seen
      (releases.map fun r => .obj r.toDict) = .ok releases := by
  induction releases generalizing position seen with
  | nil => rfl
  | cons r rest ih =>
      obtain ⟨first, later⟩ := List.forall_mem_cons.mp valid
      obtain ⟨new, distinct⟩ := List.nodup_cons.mp distinct
      have unseen : ∀ r' ∈ rest, r'.version ∉ r.version :: seen := by
        intro r' mem known
        rcases List.mem_cons.mp known with same | old
        · exact new (List.mem_map.mpr ⟨r', mem, same⟩)
        · exact (later r' mem).2 old
      have others := ih (position + 1) (r.version :: seen)
        (fun r' mem => ⟨(later r' mem).1, unseen r' mem⟩) distinct
      simp only [List.map_cons, checkReleases, release_complete first.1, ok_bind, others]
      rw [if_neg (by simpa using first.2)]

theorem optional_url_complete {value : Dict} {key : String} {origin : Text} {result : Option Text}
    (found : value.lookup (text key) = result.map .str)
    (h : ∀ url, result = some url → IsUrl lib url) :
    _optional_https_url lib value key origin = .ok result := by
  refine whenPresent_optional found fun url known => ?_
  obtain ⟨-, parsed, allowed⟩ := h url known
  exact map_ok.mpr ⟨(url, parsed), https_url_ok.mpr ⟨rfl, allowed⟩, rfl⟩

theorem module_schema {module : Module} (h : ValidModule lib module) :
    moduleSchema (.obj module.toDict) = true := by
  have publisher : publisherSchema (.obj module.publisher.toDict) = true := by
    refine objectOf_of (by simp [Publisher.toDict]) ?_
    simp +decide only [Publisher.toDict, List.forall_mem_cons, lookup_cons, ↓reduceIte,
      Option.any_some]
    exact ⟨idSchema_of h.publisher_id, stringOf_label h.publisher_name, by simp⟩
  have classification : enum [text "first-party", text "reviewed-community"]
      (.str module.classification.name) = true := by
    cases module.classification <;> decide
  have versions : arrayOf 1 releaseSchema
      (.arr (module.versions.map fun release => .obj release.toDict)) = true := by
    have some_ : 1 ≤ module.versions.length := List.length_pos_of_ne_nil h.nonempty
    have all : ∀ release ∈ module.versions, releaseSchema (.obj release.toDict) = true :=
      fun release mem => release_schema (h.releases release mem)
    simpa [arrayOf] using ⟨some_, all⟩
  have names : ∀ key ∈ REQUIRED_MODULE_KEYS, key ∈ module.toDict.map (·.1) := by
    simp +decide [REQUIRED_MODULE_KEYS, Module.toDict]
  refine objectOf_of names ?_
  simp +decide only [Module.toDict, List.forall_mem_append, List.forall_mem_cons,
    forall_mem_optional, lookup_cons, ↓reduceIte, Option.any_some]
  exact ⟨⟨⟨⟨⟨classification, by simp⟩, fun s known => stringOf_label (h.description s known)⟩,
    fun url known => (h.documentation_url url known).https⟩,
    fun url known => (h.homepage url known).https⟩,
    idSchema_of h.id, stringOf_label h.license, stringOf_label h.name, publisher,
    constOne_toJson _, h.source_repository.https, versions, by simp⟩

/-- The dictionary of a valid module is accepted as this module. -/
theorem validate_module_complete {module : Module} (h : ValidModule lib module) (origin : Text) :
    validate_module lib module.toDict origin none = .ok module := by
  have keys : _exact_keys module.toDict MODULE_KEYS REQUIRED_MODULE_KEYS origin = .ok () := by
    rw [exact_keys_ok]
    cases description : module.description <;> cases documentation : module.documentation_url <;>
      cases homepage : module.homepage <;>
      simp +decide [Module.toDict, optional, description, documentation, homepage, MODULE_KEYS,
        REQUIRED_MODULE_KEYS]
  have atRequired : required module.toDict "schema_version" = module.schema_version.toJson ∧
      required module.toDict "id" = .str module.id ∧
      required module.toDict "name" = .str module.name ∧
      required module.toDict "publisher" = .obj module.publisher.toDict ∧
      required module.toDict "classification" = .str module.classification.name ∧
      required module.toDict "source_repository" = .str module.source_repository ∧
      required module.toDict "license" = .str module.license ∧
      required module.toDict "versions" =
        .arr (module.versions.map fun release => .obj release.toDict) := by
    simp +decide [required, Module.toDict, List.lookup_append, lookup_optional, lookup_cons]
  have atOptional : module.toDict.lookup (text "description") = module.description.map .str ∧
      module.toDict.lookup (text "homepage") = module.homepage.map .str ∧
      module.toDict.lookup (text "documentation_url") = module.documentation_url.map .str := by
    simp +decide [Module.toDict, List.lookup_append, lookup_optional, lookup_cons]
  obtain ⟨atVersion, atId, atName, atPublisher, atClassification, atSource, atLicense,
    atVersions⟩ := atRequired
  obtain ⟨atDescription, atHomepage, atDocumentation⟩ := atOptional
  obtain ⟨source, allowed⟩ := h.source_repository.allowed
  have description : _optional_string module.toDict "description" origin 1000 =
      .ok module.description :=
    whenPresent_optional atDescription fun s known =>
      nonempty_string_ok.mpr ⟨rfl, h.description s known⟩
  have official : ¬(module.classification = .firstParty ∧ firstPartySource lib source = false) := by
    rintro ⟨firstParty, outside⟩
    simp [h.firstParty firstParty source allowed.2.1] at outside
  have releases : checkReleases lib origin module.id module.classification 0 []
      (module.versions.map fun release => .obj release.toDict) = .ok module.versions :=
    releases_complete 0 [] (fun release mem => ⟨h.releases release mem, by simp⟩) h.distinct
  simp only [validate_module, ok_bind, keys, atVersion, atId, atName, atPublisher,
    atClassification, atSource, atLicense, schema_version_ok.mpr rfl, canonical_id_ok.mpr ⟨rfl, h.id⟩,
    nonempty_string_ok.mpr ⟨rfl, h.name⟩, description,
    optional_url_complete atHomepage h.homepage,
    optional_url_complete atDocumentation h.documentation_url,
    publisher_complete h.publisher_id h.publisher_name, classificationOf_ok.mpr rfl,
    https_url_ok.mpr ⟨rfl, allowed⟩, if_neg official, nonempty_string_ok.mpr ⟨rfl, h.license⟩]
  cases listed : module.versions.map fun release => Json.obj release.toDict with
  | nil => exact absurd (List.map_eq_nil_iff.mp listed) h.nonempty
  | cons first others =>
      rw [listed] at releases
      simp only [atVersions, listed, releases, ok_bind, schema_ok.mpr (module_schema h)]
      rfl
/-! ## A small module -/

/-- Enough of the libraries for ASCII -/
def plainLibrary : Library where
  lower := id
  nfkc := id
  ip_address _ := none
  repr _ := []
  jsonError _ := []
  schemaError _ := []

def roadsRelease (version url : Text) : Release where
  version := version
  channel := .stable
  artifact := { url := url, sha256 := List.replicate 64 (.ofChar 'a') }
  bundle_format_version := .int
  source_commit := List.replicate 40 (.ofChar 'c')
  source_tag := none
  requires := { host := text ">=1.0.0", sdk := text ">=1.0.0", modules := ∅ }

def roadsModule (versions : List Release) : Module where
  schema_version := .int
  id := text "roads"
  name := text "Roads"
  description := none
  publisher := { id := text "okl", name := text "OKLab" }
  classification := .reviewedCommunity
  source_repository := text "https://github.com/okl/roads"
  license := text "MIT"
  homepage := none
  documentation_url := none
  versions := versions

def roadsOnGitHub : Release :=
  roadsRelease (text "1.0.0")
    (text "https://github.com/okl/roads/releases/download/v1.0.0/roads-1.0.0.ocp")

def roadsMirrored (version : Text) : Release :=
  roadsRelease version (text "https://" ++ CANONICAL_REGISTRY_HOST ++ registryPath (text "roads") version)

set_option maxRecDepth 10000 in
example : validate_module plainLibrary (roadsModule [roadsOnGitHub]).toDict [] none =
    .ok (roadsModule [roadsOnGitHub]) := by decide

end PackageRegistry
