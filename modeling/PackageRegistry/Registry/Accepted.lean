import PackageRegistry.Lib.Checks
import PackageRegistry.Registry.Index

/-! # What `validate_module` accepts

The accepted modules, said without origins and messages: a document is accepted
only if its module is valid, and the dictionary of every valid module is accepted.
-/

namespace PackageRegistry

open Checks

/-! ## Valid data -/

def IsId (id : Text) : Prop := id.length ≤ 63 ∧ MODULE_ID_RE id = true

def IsSemver (version : Text) : Prop := (SEMVER_RE version).isSome = true

def IsLabel (maximum : Nat) (s : Text) : Prop :=
  s ≠ [] ∧ s = Text.strip s ∧ s.length ≤ maximum

/-- What `_version_range` asks for -/
def HasClauses (s : Text) : Prop :=
  s ≠ [] ∧ s = Text.strip s ∧
    ∀ clause ∈ Text.splitOn (.ofChar ',') s, ∃ version, matchClause clause = some version ∧
      IsSemver version

structure IsRange (s : Text) : Prop where
  clauses : HasClauses s
  pattern : searched isRangePattern s = true

/-- An URL that `_https_url` lets pass, split -/
def HttpsUrl (lib : Library) (url : Text) (parsed : SplitResult) : Prop :=
  url ≠ [] ∧ urlsplit lib url = some parsed ∧ httpsAllowed lib url parsed = true

structure IsUrl (lib : Library) (url : Text) : Prop where
  https : Text.startsWith (text "https://") url = true
  allowed : ∃ parsed, HttpsUrl lib url parsed

/-- The verdict of `validate_artifact_url`, for which the origin does not matter -/
def AcceptsArtifactUrl (lib : Library) (classification : Classification)
    (module_id version url : Text) : Prop :=
  validate_artifact_url lib (.str url) classification module_id version [] = .ok url

structure ValidRelease (lib : Library) (module_id : Text) (classification : Classification)
    (release : Release) : Prop where
  version : IsSemver release.version
  stable : release.channel = .stable →
    ((SEMVER_RE release.version).bind (·.prerelease)).isSome = false
  https : Text.startsWith (text "https://") release.artifact.url = true
  url : AcceptsArtifactUrl lib classification module_id release.version release.artifact.url
  sha256 : SHA256_RE release.artifact.sha256 = true
  source_commit : COMMIT_RE release.source_commit = true
  source_tag : ∀ tag, release.source_tag = some tag → IsLabel 255 tag
  host : IsRange release.requires.host
  sdk : IsRange release.requires.sdk
  modules : ∀ dependency specifier : Text, release.requires.modules[dependency]? = some specifier →
    IsId dependency ∧ dependency ≠ module_id ∧ IsRange specifier

structure ValidModule (lib : Library) (module : Module) : Prop where
  id : IsId module.id
  name : IsLabel 120 module.name
  description : ∀ s, module.description = some s → IsLabel 1000 s
  homepage : ∀ url, module.homepage = some url → IsUrl lib url
  documentation_url : ∀ url, module.documentation_url = some url → IsUrl lib url
  publisher_id : IsId module.publisher.id
  publisher_name : IsLabel 120 module.publisher.name
  source_repository : IsUrl lib module.source_repository
  firstParty : module.classification = .firstParty →
    ∀ source, urlsplit lib module.source_repository = some source →
      firstPartySource lib source = true
  license : IsLabel 255 module.license
  nonempty : module.versions ≠ []
  releases : ∀ release ∈ module.versions, ValidRelease lib module.id module.classification release
  distinct : (module.versions.map (·.version)).Nodup

/-! ## Peeling checks apart -/

theorem invalid_ok {α : Type} {origin : Text} {problem : String} {a : α} :
    invalid origin problem = .ok a ↔ False := ⟨nofun, False.elim⟩

theorem lookup_optional (key key' : Text) (v : Option Text) :
    (optional key' v).lookup key = if key = key' then v.map Json.str else none := by
  cases v with
  | none => simp [optional]
  | some s => simp [optional, lookup_cons]

theorem mem_of_lookup {key : Text} {v : Json} {fields : Dict} (h : fields.lookup key = some v) :
    (key, v) ∈ fields := by
  induction fields with
  | nil => cases h
  | cons f rest ih =>
      obtain ⟨key', v'⟩ := f
      rw [lookup_cons] at h
      split at h
      · cases h
        simp [*]
      · exact List.mem_cons_of_mem _ (ih h)

/-! ## Single values -/

variable {lib : Library}

theorem canonical_id_ok {v : Json} {origin id : Text} :
    _canonical_id v origin = .ok id ↔ v = .str id ∧ IsId id := by
  cases v with
  | str s =>
      simp only [_canonical_id, guard_ok invalid_ok, Except.ok.injEq, Json.str.injEq, IsId,
        not_or, not_lt, Bool.not_eq_false]
      grind
  | null | bool | int | float | arr | obj => simp [_canonical_id, invalid]

theorem semver_ok {v : Json} {origin version : Text} :
    _semver v origin = .ok version ↔ v = .str version ∧ IsSemver version := by
  cases v with
  | str s =>
      simp only [_semver, IsSemver, Json.str.injEq]
      split <;> grind [invalid]
  | null | bool | int | float | arr | obj => simp [_semver, invalid]

theorem nonempty_string_ok {v : Json} {origin s : Text} {maximum : Nat} :
    _nonempty_string v origin maximum = .ok s ↔ v = .str s ∧ IsLabel maximum s := by
  cases v with
  | str s' =>
      simp only [_nonempty_string, guard_ok invalid_ok, Except.ok.injEq, Json.str.injEq, IsLabel,
        not_or, not_lt, not_not]
      grind
  | null | bool | int | float | arr | obj => simp [_nonempty_string, invalid]

theorem https_url_ok {v : Json} {origin url : Text} {parsed : SplitResult} :
    _https_url lib v origin = .ok (url, parsed) ↔ v = .str url ∧ HttpsUrl lib url parsed := by
  cases v with
  | str s =>
      simp only [_https_url, guard_ok invalid_ok, Json.str.injEq, HttpsUrl]
      cases split : urlsplit lib s with
      | none => grind
      | some parsed' =>
          simp only
          split <;> grind [invalid]
  | null | bool | int | float | arr | obj => simp [_https_url, invalid]

theorem hexString_ok {pattern : Text → Bool} {v : Json} {origin s : Text} {problem : String} :
    hexString pattern v origin problem = .ok s ↔ v = .str s ∧ pattern s = true := by
  cases v with
  | str s' =>
      simp only [hexString, Json.str.injEq]
      split <;> grind [invalid]
  | null | bool | int | float | arr | obj => simp [hexString, invalid]

theorem isOne_eq {v : Json} {one : One} : isOne v = some one ↔ v = one.toJson := by
  cases v with
  | int i =>
      by_cases unit : i = 1
      · subst unit
        cases one <;> simp [isOne, One.toJson]
      · have none : isOne (.int i) = Option.none := by
          unfold isOne
          split <;> simp_all
        cases one <;> simp [none, One.toJson, unit]
  | float d =>
      by_cases unit : d = .one <;> cases one <;> simp [isOne, One.toJson, unit]
  | null | bool | str | arr | obj => cases one <;> simp [isOne, One.toJson]

theorem schema_version_ok {v : Json} {origin : Text} {one : One} :
    _schema_version lib v origin = .ok one ↔ v = one.toJson := by
  rw [← isOne_eq, _schema_version]
  cases isOne v <;> simp

theorem channelOf_ok {v : Json} {origin : Text} {channel : Channel} :
    channelOf v origin = .ok channel ↔ v = .str channel.name := by
  cases v with
  | str s =>
      have found : ∀ c : Channel, CHANNELS.find? (·.name == c.name) = some c := by
        rintro (_ | _ | _) <;> decide
      simp only [channelOf, Json.str.injEq]
      constructor
      · intro h
        split at h
        · rename_i c at_
          cases h
          exact (by simpa using (List.find?_eq_some_iff_append.mp at_).1 : channel.name = s).symm
        · cases h
      · rintro rfl
        rw [found]
  | null | bool | int | float | arr | obj => simp [channelOf, invalid]

theorem classificationOf_ok {v : Json} {origin : Text} {classification : Classification} :
    classificationOf v origin = .ok classification ↔ v = .str classification.name := by
  cases v with
  | str s =>
      have found : ∀ c : Classification,
          [Classification.firstParty, .reviewedCommunity].find? (·.name == c.name) = some c := by
        rintro (_ | _) <;> decide
      simp only [classificationOf, Json.str.injEq]
      constructor
      · intro h
        split at h
        · rename_i c at_
          cases h
          exact (by simpa using (List.find?_eq_some_iff_append.mp at_).1 :
            classification.name = s).symm
        · cases h
      · rintro rfl
        rw [found]
  | null | bool | int | float | arr | obj => simp [classificationOf, invalid]

theorem checkClauses_ok {origin : Text} {clauses : List Text} :
    checkClauses origin clauses = .ok () ↔
      ∀ clause ∈ clauses, ∃ version, matchClause clause = some version ∧ IsSemver version := by
  induction clauses with
  | nil => simp [checkClauses]
  | cons clause rest ih =>
      rw [List.forall_mem_cons, ← ih, checkClauses]
      cases matched : matchClause clause with
      | none => simp [invalid]
      | some version => simp [bind_ok, semver_ok]

theorem version_range_ok {v : Json} {origin s : Text} :
    _version_range v origin = .ok s ↔ v = .str s ∧ HasClauses s := by
  cases v with
  | str s' =>
      simp only [_version_range, guard_ok invalid_ok, check_ok, checkClauses_ok, Except.ok.injEq,
        Json.str.injEq, HasClauses, not_or, not_not]
      grind
  | null | bool | int | float | arr | obj => simp [_version_range, invalid]

theorem exact_keys_ok {value : Dict} {allowed required : List Text} {origin : Text} :
    _exact_keys value allowed required origin = .ok () ↔
      (∀ key ∈ value.map (·.1), key ∈ allowed) ∧ ∀ key ∈ required, key ∈ value.map (·.1) := by
  have none_left (names : List Text) (p : Text → Bool) :
      (!(sortedTexts (names.filter fun key => !p key)).isEmpty) = false ↔
        ∀ key ∈ names, p key = true := by
    rw [Bool.not_eq_false', List.isEmpty_iff, sortedTexts, ← List.length_eq_zero_iff,
      List.length_insertionSort, List.length_eq_zero_iff, List.filter_eq_nil_iff]
    simp
  simp only [_exact_keys, guard_ok error_ok, Bool.not_eq_true, none_left, List.contains_iff_mem,
    and_true]

theorem whenPresent_ok {value : Dict} {key : String} {check : Json → Checked Text}
    {result : Option Text} (h : whenPresent value key check = .ok result) :
    ∀ s, result = some s → ∃ v, value.lookup (text key) = some v ∧ check v = .ok s := by
  rintro s rfl
  unfold whenPresent at h
  split at h
  · rename_i v found
    cases passed : check v with
    | error e => simp [passed, Except.map] at h
    | ok s' =>
        simp only [passed, Except.map, Except.ok.injEq, Option.some.injEq] at h
        exact ⟨v, found, h ▸ passed⟩
  · cases h

/-! ## Schemas -/

theorem objectOf_field {names : List Text} {properties : List (Text × Schema)} {fields : Dict}
    (h : objectOf names properties (.obj fields) = true) {key : Text} {v : Json}
    (found : fields.lookup key = some v) : (properties.lookup key).any (fun check => check v) = true :=
  List.all_eq_true.mp (Bool.and_eq_true_iff.mp h).2 _ (mem_of_lookup found)

theorem lookup_of_required {fields : Dict} {key : String} {v : Json} (h : required fields key = v)
    (present : v ≠ .null) : fields.lookup (text key) = some v := by
  unfold required at h
  cases found : fields.lookup (text key) with
  | none => exact absurd (by simpa [found] using h.symm) present
  | some v' => simpa [found] using h

theorem objectOf_required {names : List Text} {properties : List (Text × Schema)} {fields : Dict}
    (h : objectOf names properties (.obj fields) = true) {key : String} {v : Json}
    (found : required fields key = v) (present : v ≠ .null) :
    (properties.lookup (text key)).any (fun check => check v) = true :=
  objectOf_field h (lookup_of_required found present)

theorem arrayOf_items {minItems : Nat} {items : Schema} {values : List Json}
    (h : arrayOf minItems items (.arr values) = true) : ∀ v ∈ values, items v = true :=
  List.all_eq_true.mp (Bool.and_eq_true_iff.mp h).2

theorem schema_ok {schema : Schema} {value : Json} {origin : Text} :
    _validate_json_schema lib schema value origin = .ok () ↔ schema value = true := by
  unfold _validate_json_schema
  split <;> simp [*]

/-! ## Accepted parts are valid -/

theorem publisher_sound {v : Json} {origin : Text} {publisher : Publisher}
    (h : _validate_publisher v origin = .ok publisher) :
    IsId publisher.id ∧ IsLabel 120 publisher.name := by
  cases v with
  | obj fields =>
      simp only [_validate_publisher, bind_ok, canonical_id_ok, nonempty_string_ok] at h
      obtain ⟨-, -, id, ⟨-, isId⟩, name, ⟨-, isLabel⟩, ⟨⟩⟩ := h
      exact ⟨isId, isLabel⟩
  | null | bool | int | float | str | arr => cases h

def requiresSchema : Schema :=
  objectOf [text "host", text "sdk", text "modules"]
    [(text "host", versionRangeSchema), (text "sdk", versionRangeSchema),
      (text "modules", mappingOf (searched MODULE_ID_RE) versionRangeSchema)]

theorem dependencies_sound {origin module_id : Text} {fields : Dict} {modules : List (Text × Text)}
    (h : checkDependencies origin module_id fields = .ok modules)
    (schema : ∀ f ∈ fields, versionRangeSchema f.2 = true) :
    ∀ d ∈ modules, IsId d.1 ∧ d.1 ≠ module_id ∧ IsRange d.2 := by
  induction fields generalizing modules with
  | nil =>
      cases h
      simp
  | cons f rest ih =>
      obtain ⟨dependency, constraint⟩ := f
      rw [List.forall_mem_cons] at schema
      simp only [checkDependencies, bind_ok, canonical_id_ok, Json.str.injEq, guard_ok invalid_ok,
        version_range_ok] at h
      obtain ⟨_, ⟨rfl, isId⟩, other, specifier, ⟨rfl, clauses⟩, others, passed, ⟨⟩⟩ := h
      rw [List.forall_mem_cons]
      exact ⟨⟨isId, other, clauses, schema.1⟩, ih passed schema.2⟩

theorem requires_sound {v : Json} {origin module_id : Text} {requires : Requires}
    (h : _validate_requires v origin module_id = .ok requires) (schema : requiresSchema v = true) :
    IsRange requires.host ∧ IsRange requires.sdk ∧
      ∀ dependency specifier : Text, requires.modules[dependency]? = some specifier →
        IsId dependency ∧ dependency ≠ module_id ∧ IsRange specifier := by
  cases v with
  | obj fields =>
      simp only [_validate_requires, check_ok] at h
      simp only [bind_ok, version_range_ok] at h
      obtain ⟨-, host, ⟨atHost, hostClauses⟩, sdk, ⟨atSdk, sdkClauses⟩, h⟩ := h
      split at h
      · rename_i dependencies atModules
        obtain ⟨modules, passed, built⟩ := bind_ok.mp h
        cases built
        have hostPattern := objectOf_required schema atHost (by simp)
        have sdkPattern := objectOf_required schema atSdk (by simp)
        have each := objectOf_required schema atModules (by simp)
        simp +decide only [lookup_cons] at hostPattern sdkPattern each
        have ranges := dependencies_sound passed fun f mem =>
          (Bool.and_eq_true_iff.mp (List.all_eq_true.mp each f mem)).2
        exact ⟨⟨hostClauses, hostPattern⟩, ⟨sdkClauses, sdkPattern⟩, fun dependency specifier found =>
          ranges (dependency, specifier) (Table.mem_of_get_ofList found)⟩
      · cases h
  | null | bool | int | float | str | arr => cases h

theorem artifact_url_ok {v : Json} {classification : Classification}
    {module_id version origin url : Text} :
    validate_artifact_url lib v classification module_id version origin = .ok url ↔
      v = .str url ∧ AcceptsArtifactUrl lib classification module_id version url := by
  simp only [AcceptsArtifactUrl, validate_artifact_url, bind_ok, Prod.exists, https_url_ok, guard_ok invalid_ok,
    Except.ok.injEq, Json.str.injEq]
  grind

theorem bundleFormat_ok {v : Json} {origin : Text} {one : One}
    (h : bundleFormat v origin = .ok one) (schema : constOne v = true) : v = one.toJson := by
  unfold bundleFormat at h
  split at h
  · cases schema
  · rw [← isOne_eq]
    cases known : isOne v with
    | none => simp [known, invalid] at h
    | some one' => simpa [known] using h

theorem release_sound {v : Json} {origin module_id : Text} {classification : Classification}
    {release : Release} (h : _validate_release lib v origin module_id classification = .ok release)
    (schema : releaseSchema v = true) : ValidRelease lib module_id classification release := by
  cases v with
  | obj fields =>
      simp only [_validate_release, check_ok] at h
      simp only [bind_ok, semver_ok, channelOf_ok, guard_ok invalid_ok] at h
      obtain ⟨-, version, ⟨atVersion, isSemver⟩, channel, -, stable, h⟩ := h
      split at h
      · rename_i artifact atArtifact
        rw [check_ok] at h
        simp only [bind_ok, artifact_url_ok, hexString_ok] at h
        obtain ⟨-, url, ⟨atUrl, accepted⟩, sha256, ⟨-, digest⟩, one, -, commit, ⟨-, hex⟩, tag, atTag,
          requires, passed, built⟩ := h
        cases built
        have parts := objectOf_required schema atArtifact (by simp)
        simp +decide only [lookup_cons] at parts
        have https := objectOf_required parts atUrl (by simp)
        have present : required fields "requires" ≠ .null := by
          intro absent
          rw [absent] at passed
          cases passed
        have compatibility := objectOf_required schema rfl present
        simp +decide only [lookup_cons] at https compatibility
        obtain ⟨host, sdk, modules⟩ := requires_sound passed compatibility
        have isLabel : ∀ s, tag = some s → IsLabel 255 s := by
          intro s isTag
          obtain ⟨_, -, label⟩ := whenPresent_ok atTag s isTag
          exact (nonempty_string_ok.mp label).2
        have released : channel = .stable →
            ((SEMVER_RE version).bind (·.prerelease)).isSome = false :=
          fun onStable => Bool.eq_false_iff.mpr fun prerelease => stable ⟨onStable, prerelease⟩
        exact ⟨isSemver, released, https, accepted, digest, hex, isLabel, host, sdk, modules⟩
      · cases h
  | null | bool | int | float | str | arr => cases h

theorem releases_sound {origin module_id : Text} {classification : Classification}
    {values : List Json} {position : Nat} {seen : List Text} {releases : List Release}
    (h : checkReleases lib origin module_id classification position seen values = .ok releases)
    (schema : ∀ v ∈ values, releaseSchema v = true) :
    (∀ release ∈ releases, ValidRelease lib module_id classification release ∧
      release.version ∉ seen) ∧ (releases.map (·.version)).Nodup := by
  induction values generalizing position seen releases with
  | nil =>
      cases h
      simp
  | cons v rest ih =>
      rw [List.forall_mem_cons] at schema
      simp only [checkReleases, bind_ok, guard_ok error_ok] at h
      obtain ⟨release, first, fresh, others, passed, built⟩ := h
      cases built
      obtain ⟨valid, distinct⟩ := ih passed schema.2
      have new : release.version ∉ seen := by simpa using fresh
      rw [List.forall_mem_cons, List.map_cons, List.nodup_cons]
      refine ⟨⟨⟨release_sound first schema.1, new⟩, fun r mem => ?_⟩, ?_, distinct⟩
      · exact ⟨(valid r mem).1, fun known => (valid r mem).2 (List.mem_cons_of_mem _ known)⟩
      · intro again
        obtain ⟨r, mem, same⟩ := List.mem_map.mp again
        exact (valid r mem).2 (by rw [same]; exact List.mem_cons_self)

theorem optional_url_sound {value : Dict} {key : String} {origin : Text} {result : Option Text}
    (h : _optional_https_url lib value key origin = .ok result) {properties : List (Text × Schema)}
    {names : List Text} (schema : objectOf names properties (.obj value) = true)
    (property : properties.lookup (text key) = some httpsUrlSchema) :
    ∀ url, result = some url → IsUrl lib url := by
  intro url isUrl
  obtain ⟨v, found, passed⟩ := whenPresent_ok h url isUrl
  obtain ⟨⟨_, parsed⟩, split, rfl⟩ := map_ok.mp passed
  obtain ⟨rfl, allowed⟩ := https_url_ok.mp split
  have https := objectOf_field schema found
  rw [property] at https
  exact ⟨https, parsed, allowed⟩

/-- An accepted document has a valid module. -/
theorem validate_module_sound {document : Dict} {origin : Text} {expected_id : Option Text}
    {module : Module} (h : validate_module lib document origin expected_id = .ok module) :
    ValidModule lib module ∧ ∀ id, expected_id = some id → id = module.id := by
  simp only [validate_module, check_ok] at h
  obtain ⟨-, h⟩ := h
  simp only [bind_ok, canonical_id_ok, guard_ok error_ok, guard_ok invalid_ok, nonempty_string_ok,
    classificationOf_ok, Prod.exists, https_url_ok] at h
  obtain ⟨one, -, id, ⟨-, isId⟩, expected, name, ⟨-, isName⟩, description, atDescription, homepage,
    atHomepage, documentation, atDocumentation, publisher, atPublisher, classification, -, source,
    parsed, ⟨atSource, allowed⟩, firstParty, license, ⟨-, isLicense⟩, h⟩ := h
  split at h
  · rename_i first others atVersions
    obtain ⟨versions, passed, h⟩ := bind_ok.mp h
    obtain ⟨conforms, built⟩ := check_ok.mp h
    cases built
    have schema := schema_ok.mp conforms
    have releases := objectOf_required schema atVersions (by simp)
    have https := objectOf_required schema atSource (by simp)
    simp +decide only [lookup_cons, ↓reduceIte, Option.any_some] at releases https
    obtain ⟨valid, distinct⟩ := releases_sound passed (arrayOf_items releases)
    obtain ⟨publisherId, publisherName⟩ := publisher_sound atPublisher
    refine ⟨{ id := isId
              name := isName
              description := ?_
              homepage := optional_url_sound atHomepage schema
                (by simp +decide only [lookup_cons, ↓reduceIte])
              documentation_url := optional_url_sound atDocumentation schema
                (by simp +decide only [lookup_cons, ↓reduceIte])
              publisher_id := publisherId
              publisher_name := publisherName
              source_repository := ⟨https, parsed, allowed⟩
              firstParty := ?_
              license := isLicense
              nonempty := ?_
              releases := fun r mem => (valid r mem).1
              distinct := distinct }, ?_⟩
    · intro s isText
      obtain ⟨_, -, label⟩ := whenPresent_ok atDescription s isText
      exact (nonempty_string_ok.mp label).2
    · intro official source' split
      have same : parsed = source' := Option.some.inj (allowed.2.1.symm.trans split)
      rw [← same]
      by_contra outside
      exact firstParty ⟨official, Bool.eq_false_iff.mpr outside⟩
    · rintro rfl
      simp only [checkReleases, bind_ok, guard_ok error_ok] at passed
      obtain ⟨_, _, _, _, _, nothing⟩ := passed
      cases nothing
    · rintro id' rfl
      simpa using expected
  · cases h

end PackageRegistry
