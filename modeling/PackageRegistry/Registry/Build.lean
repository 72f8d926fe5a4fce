import PackageRegistry.Lib.Utf8
import PackageRegistry.Registry.Channels

/-! # `build` and what it publishes

`scripts/build_registry.py`: the index and the module files that a source tree is deployed
as. File operations are taken to succeed, so what is left of a run is the directory that
replaces the output, or the exception.
-/

namespace PackageRegistry

open Checks

/-! ## The output directory -/

/-- Where `build` runs and writes. Resolved paths are the lists of their parts. -/
structure OutputPath where
  repository_root : List Text
  registry_root : List Text
  output : Text
  resolved_output : List Text
  is_symlink : Bool

def OutputPath.refused (place : OutputPath) : Bool :=
  let is_relative_to := fun (path other : List Text) => other.isPrefixOf path
  let forbidden := [[], place.repository_root, place.registry_root]
  let unsafe_tree := is_relative_to place.repository_root place.resolved_output ||
    is_relative_to place.resolved_output place.registry_root
  forbidden.contains place.resolved_output || unsafe_tree || place.is_symlink

/-! ## Numbers of a version -/

/-- The texts that `semver_key` gives to `int` -/
def SemverMatch.numbers (m : SemverMatch) : List Text :=
  [m.major, m.minor, m.patch] ++
    match m.prerelease with
    | some p => (Text.splitOn (.ofChar '.') p).filter fun part => part.all CodePoint.isDigit
    | none => []

/-- `int` raises a `ValueError` beyond `sys.get_int_max_str_digits()`; zero is no limit. -/
def withinLimit (int_max_str_digits : Nat) (version : Text) : Bool :=
  int_max_str_digits == 0 || (SEMVER_RE version).all fun m =>
    m.numbers.all fun number => number.length ≤ int_max_str_digits

/-! ## Building -/

/-- A `UnicodeEncodeError` is a `ValueError`. -/
def write_text (content : Text) : Checked ByteArray :=
  match Text.encode content with
  | some bytes => .ok bytes
  | none => .error .value_error

def moduleFile (module_id : Text) : Text := text "modules/" ++ module_id ++ text ".json"

def writeModule (module : Module) : Checked (Text × ByteArray) := do
  let canonical ← canonical_module module
  let bytes ← write_text (Json.canonical_json (.obj canonical.toDict))
  .ok (moduleFile module.id, bytes)

/-- The files of the deployment directory, by their path in it -/
abbrev Deployment := Table Text ByteArray

def build (lib : Library) (int_max_str_digits : Nat) (place : OutputPath) (root : RegistryRoot) :
    Checked Deployment := do
  let modules ← load_registry lib root
  if place.refused then
    .error (.validation (text "refusing unsafe output directory: " ++ place.output))
  -- `build_index` computes the key of every release
  else if modules.any fun m => m.versions.any fun r => !withinLimit int_max_str_digits r.version then
    .error .value_error
  else do
    let index ← build_index lib modules
    let index_json ← write_text (Json.canonical_json (.obj index.toDict))
    let files ← modules.mapM writeModule
    .ok (Table.ofList ((text "index.json", index_json) :: files))

/-- A published file, decoded -/
def readJson (files : Deployment) (path : Text) : Option Json := do
  let bytes ← files[path]?
  let content ← Text.decode bytes
  Json.loads content

/-- The files are the index and the canonical modules. Decoding gives the fields of an object
    in the order of their keys. -/
structure Published (lib : Library) (modules : List Module) (files : Deployment) : Prop where
  index_file : ∃ index, build_index lib modules = .ok index ∧
    readJson files (text "index.json") = some (Json.obj index.toDict).sortKeys
  module_files : ∀ m ∈ modules, ∃ canonical, canonical_module m = .ok canonical ∧
    readJson files (moduleFile m.id) = some (Json.obj canonical.toDict).sortKeys
  nothing_else : ∀ (path : Text) bytes, files[path]? = some bytes →
    path = text "index.json" ∨ ∃ m ∈ modules, path = moduleFile m.id

/-- No string of a module document holds a surrogate, and every number of a version can be
    converted. -/
def Publishable (int_max_str_digits : Nat) (modules : List Module) : Prop :=
  ∀ m ∈ modules, (∀ s ∈ (Json.obj m.toDict).strings, Text.Encodable s) ∧
    ∀ r ∈ m.versions, withinLimit int_max_str_digits r.version = true

variable {lib : Library}

/-! ## The documents are read back -/

open Json (Plain)

theorem plain_one (one : One) : Plain one.toJson := by
  cases one with
  | int => trivial
  | float => exact Json.reads_one

theorem plain_obj {fields : Dict} (distinct : (fields.map (·.1)).Nodup)
    (values : ∀ f ∈ fields, Plain f.2) : Plain (.obj fields) :=
  ⟨distinct, (Json.plainFields_iff fields).mpr values⟩

theorem plain_publisher (publisher : Publisher) : Plain (.obj publisher.toDict) :=
  plain_obj (by simp +decide [Publisher.toDict]) (by simp [Publisher.toDict, Plain])

theorem plain_release (release : Release) : Plain (.obj release.toDict) := by
  have artifact : Plain (.obj release.artifact.toDict) :=
    plain_obj (by simp +decide [ReleaseArtifact.toDict]) (by simp [ReleaseArtifact.toDict, Plain])
  have modules : Plain (.obj (dependenciesToDict release.requires.modules)) := by
    refine plain_obj ?_ fun f mem => ?_
    · rw [dependenciesToDict, List.map_map]
      exact Table.nodup_keys release.requires.modules
    · obtain ⟨d, -, rfl⟩ := List.mem_map.mp mem
      trivial
  have requires : Plain (.obj release.requires.toDict) := by
    refine plain_obj (by simp +decide [Requires.toDict]) ?_
    simp only [Requires.toDict, List.forall_mem_cons]
    exact ⟨trivial, modules, trivial, by simp⟩
  refine plain_obj ?_ ?_
  · cases tag : release.source_tag <;> simp +decide [Release.toDict, optional, tag]
  · simp only [Release.toDict, List.forall_mem_append, List.forall_mem_cons, forall_mem_optional]
    exact ⟨⟨⟨artifact, plain_one _, trivial, requires, trivial, by simp⟩, fun _ _ => trivial⟩,
      trivial, by simp⟩

theorem plain_module (m : Module) : Plain (.obj m.toDict) := by
  have versions : Plain (.arr (m.versions.map fun release => .obj release.toDict)) := by
    refine (Json.plainItems_iff _).mpr fun v mem => ?_
    obtain ⟨r, -, rfl⟩ := List.mem_map.mp mem
    exact plain_release r
  refine plain_obj ?_ ?_
  · cases description : m.description <;> cases documentation : m.documentation_url <;>
      cases homepage : m.homepage <;>
      simp +decide [Module.toDict, optional, description, documentation, homepage]
  · simp only [Module.toDict, List.forall_mem_append, List.forall_mem_cons, forall_mem_optional]
    exact ⟨⟨⟨⟨⟨trivial, by simp⟩, fun _ _ => trivial⟩, fun _ _ => trivial⟩, fun _ _ => trivial⟩,
      trivial, trivial, trivial, plain_publisher _, plain_one _, trivial, versions, by simp⟩

theorem plain_index (index : Index) : Plain (.obj index.toDict) := by
  have entry : ∀ e : IndexEntry, Plain (.obj e.toDict) := by
    intro e
    have channels : Plain (.obj (e.channels.toList.map fun c => (c.1.name, .obj c.2.toDict))) := by
      refine plain_obj ?_ fun f mem => ?_
      · rw [List.map_map]
        have names := (Table.nodup_keys e.channels).map Channel.name_injective
        rwa [List.map_map] at names
      · obtain ⟨c, -, rfl⟩ := List.mem_map.mp mem
        exact plain_obj (by simp +decide [Target.toDict]) (by simp [Target.toDict, Plain])
    refine plain_obj (by simp +decide [IndexEntry.toDict]) ?_
    simp only [IndexEntry.toDict, List.forall_mem_cons]
    exact ⟨channels, trivial, trivial, trivial, trivial, plain_publisher _, by simp⟩
  have entries : Plain (.arr (index.modules.map fun entry => .obj entry.toDict)) := by
    refine (Json.plainItems_iff _).mpr fun v mem => ?_
    obtain ⟨e, -, rfl⟩ := List.mem_map.mp mem
    exact entry e
  refine plain_obj (by simp +decide [Index.toDict]) ?_
  simp only [Index.toDict, List.forall_mem_cons]
  exact ⟨entries, trivial, by simp⟩

/-! ## Their strings -/

open Json (strings stringsOfItems mem_stringsOfFields mem_stringsOfItems)

theorem mem_strings_obj {fields : Dict} {key : Text} {v : Json} {s : Text}
    (field : (key, v) ∈ fields) (inside : s ∈ strings v) : s ∈ strings (.obj fields) :=
  mem_stringsOfFields.mpr ⟨(key, v), field, .inr inside⟩

theorem mem_strings_field {fields : Dict} {key s : Text} (field : (key, .str s) ∈ fields) :
    s ∈ strings (.obj fields) :=
  mem_strings_obj field (List.mem_singleton.mpr rfl)

theorem mem_strings_release {m : Module} {r : Release} (mem : r ∈ m.versions) {s : Text}
    (inside : s ∈ strings (.obj r.toDict)) : s ∈ strings (.obj m.toDict) := by
  have field : (text "versions", Json.arr (m.versions.map fun release => .obj release.toDict)) ∈
      m.toDict := by simp [Module.toDict]
  refine mem_strings_obj field (mem_stringsOfItems.mpr ⟨_, List.mem_map.mpr ⟨r, mem, rfl⟩, inside⟩)

/-- Sorting the versions moves no string in or out of the document. -/
theorem mem_strings_canonical (m : Module) {s : Text} :
    s ∈ strings (.obj (canonical m).toDict) ↔ s ∈ strings (.obj m.toDict) := by
  have versions : s ∈ stringsOfItems
        ((sortBy versionKey m.versions).map fun release => .obj release.toDict) ↔
      s ∈ stringsOfItems (m.versions.map fun release => .obj release.toDict) := by
    simp [mem_stringsOfItems]
  simp only [strings, mem_stringsOfFields, Module.toDict, canonical, List.mem_append,
    List.mem_cons, List.not_mem_nil, or_false, or_and_right, exists_or, exists_eq_left, versions]

theorem forall_strings_obj {fields : Dict} {P : Text → Prop} :
    (∀ s ∈ strings (.obj fields), P s) ↔ ∀ f ∈ fields, P f.1 ∧ ∀ s ∈ strings f.2, P s := by
  simp only [strings, mem_stringsOfFields]
  constructor
  · intro all f mem
    exact ⟨all f.1 ⟨f, mem, .inl rfl⟩, fun s inside => all s ⟨f, mem, .inr inside⟩⟩
  · rintro each s ⟨f, mem, rfl | inside⟩
    · exact (each f mem).1
    · exact (each f mem).2 s inside

theorem forall_strings_arr {items : List Json} {P : Text → Prop} :
    (∀ s ∈ strings (.arr items), P s) ↔ ∀ v ∈ items, ∀ s ∈ strings v, P s := by
  simp only [strings, mem_stringsOfItems]
  constructor
  · intro all v mem s inside
    exact all s ⟨v, mem, inside⟩
  · rintro each s ⟨v, mem, inside⟩
    exact each v mem s inside

theorem forall_strings_str {s : Text} {P : Text → Prop} : (∀ t ∈ strings (.str s), P t) ↔ P s := by
  simp [strings]

/-- What stands in the index stands in the modules, or is ASCII. -/
theorem encodable_entry {m : Module} (h : ∀ s ∈ strings (.obj m.toDict), Text.Encodable s) :
    ∀ s ∈ strings (.obj (entryOf m).toDict), Text.Encodable s := by
  have fields := forall_strings_obj.mp h
  simp only [Module.toDict, List.forall_mem_append, List.forall_mem_cons, forall_strings_str,
    forall_strings_arr, List.forall_mem_map] at fields
  obtain ⟨⟨⟨⟨⟨classification, -⟩, -⟩, -⟩, -⟩, ⟨-, id⟩, -, ⟨-, name⟩, ⟨-, publisher⟩, -, -,
    ⟨-, versions⟩, -⟩ := fields
  have release : ∀ r ∈ m.versions, Text.Encodable r.version ∧ Text.Encodable r.artifact.sha256 := by
    intro r mem
    have fields := forall_strings_obj.mp (versions r mem)
    simp only [Release.toDict, List.forall_mem_append, List.forall_mem_cons, forall_strings_str,
      forall_strings_obj, ReleaseArtifact.toDict] at fields
    obtain ⟨⟨⟨⟨-, ⟨-, sha256⟩, -⟩, -⟩, -⟩, ⟨-, version⟩, -⟩ := fields
    exact ⟨version, sha256⟩
  have channels : ∀ s ∈ strings (.obj ((entryOf m).channels.toList.map fun c =>
      (c.1.name, .obj c.2.toDict))), Text.Encodable s := by
    refine forall_strings_obj.mpr fun f mem => ?_
    obtain ⟨⟨channel, target⟩, row, rfl⟩ := List.mem_map.mp mem
    have found : offered m.versions channel = some target := by
      rw [← get_channels]
      exact (Table.mem_toList _).mp row
    obtain ⟨r, inVersions, -, rfl⟩ := offered_mem found
    have named : Text.Encodable channel.name := by cases channel <;> decide
    refine ⟨named, forall_strings_obj.mpr ?_⟩
    simp +decide [Target.toDict, Release.target, forall_strings_str, release r inVersions]
  have metadata : Text.Encodable (metadataPath m.id) := by
    simp only [metadataPath, Text.encodable_append]
    exact ⟨⟨by decide, id⟩, by decide⟩
  refine forall_strings_obj.mpr ?_
  simp only [IndexEntry.toDict, List.forall_mem_cons, forall_strings_str]
  exact ⟨⟨by decide, channels⟩, ⟨by decide, classification.2⟩, ⟨by decide, id⟩,
    ⟨by decide, metadata⟩, ⟨by decide, name⟩, ⟨by decide, publisher⟩, by simp⟩

theorem encodable_index {modules : List Module}
    (h : ∀ m ∈ modules, ∀ s ∈ strings (.obj m.toDict), Text.Encodable s) :
    ∀ s ∈ strings (.obj (indexOf modules).toDict), Text.Encodable s := by
  refine forall_strings_obj.mpr ?_
  simp only [Index.toDict, List.forall_mem_cons, forall_strings_arr, List.forall_mem_map]
  refine ⟨⟨by decide, fun entry mem => ?_⟩, ⟨by decide, by simp [strings]⟩, by simp⟩
  obtain ⟨m, inModules, rfl⟩ := mem_indexOf.mp mem
  exact encodable_entry (h m inModules)

/-! ## Which trees can be published -/

theorem write_text_ok {content : Text} {bytes : ByteArray} :
    write_text content = .ok bytes ↔ Text.encode content = some bytes := by
  unfold write_text
  cases Text.encode content <;> simp

theorem moduleFile_injective : Function.Injective moduleFile := by
  intro a b same
  have inner := List.append_cancel_right same
  exact List.append_cancel_left inner

theorem moduleFile_ne_index (module_id : Text) : moduleFile module_id ≠ text "index.json" := by
  intro same
  have first := congrArg List.head? same
  simp [moduleFile, text] at first
  exact absurd first (by decide)

theorem writeModule_ok {m : Module} (h : ValidModule lib m) {file : Text × ByteArray} :
    writeModule m = .ok file ↔
      ∃ bytes, Text.encode (Json.canonical_json (.obj (canonical m).toDict)) = some bytes ∧
        file = (moduleFile m.id, bytes) := by
  simp only [writeModule, canonical_module_ok h, ok_bind, bind_ok, write_text_ok, Except.ok.injEq,
    @eq_comm _ file]

/-- A file that holds an encoded canonical text is read as the value. -/
theorem readJson_eq {files : Deployment} {path : Text} {bytes : ByteArray} {v : Json}
    (stored : files[path]? = some bytes) (encoded : Text.encode (Json.canonical_json v) = some bytes)
    (plain : Plain v) : readJson files path = some v.sortKeys := by
  simp only [readJson, stored, Option.bind_eq_bind, Option.bind_some, Text.decode_encode encoded,
    Json.loads_canonical_json plain]

/-- Files that were written under different names, and each is there. -/
theorem published_of_written {modules : List Module} (valid : ∀ m ∈ modules, ValidModule lib m)
    (distinct : (modules.map (·.id)).Nodup) {index_json : ByteArray} {written : Module → ByteArray}
    (index : Text.encode (Json.canonical_json (.obj (indexOf modules).toDict)) = some index_json)
    (each : ∀ m ∈ modules,
      Text.encode (Json.canonical_json (.obj (canonical m).toDict)) = some (written m)) :
    Published lib modules (Table.ofList ((text "index.json", index_json) ::
      modules.map fun m => (moduleFile m.id, written m))) := by
  have keys : (((text "index.json", index_json) ::
      modules.map fun m => (moduleFile m.id, written m)).map (·.1)).Nodup := by
    rw [List.map_cons, List.map_map, List.nodup_cons]
    constructor
    · intro mem
      obtain ⟨m, -, same⟩ := List.mem_map.mp mem
      exact moduleFile_ne_index m.id same
    · have names := distinct.map moduleFile_injective
      rwa [List.map_map] at names
  have stored := fun path bytes => Table.get_ofList keys path bytes
  refine ⟨⟨indexOf modules, build_index_ok valid, ?_⟩, fun m mem => ?_, fun path bytes found => ?_⟩
  · exact readJson_eq ((stored _ _).mpr (by simp)) index (plain_index _)
  · have there : (moduleFile m.id, written m) ∈ (text "index.json", index_json) ::
        modules.map fun m => (moduleFile m.id, written m) :=
      List.mem_cons_of_mem _ (List.mem_map.mpr ⟨m, mem, rfl⟩)
    exact ⟨canonical m, canonical_module_ok (valid m mem),
      readJson_eq ((stored _ _).mpr there) (each m mem) (plain_module _)⟩
  · rcases List.mem_cons.mp ((stored path bytes).mp found) with first | later
    · exact .inl (Prod.ext_iff.mp first).1
    · obtain ⟨m, mem, same⟩ := List.mem_map.mp later
      exact .inr ⟨m, mem, (Prod.ext_iff.mp same).1.symm⟩

theorem encode_canonical_json {v : Json} :
    (∃ bytes, Text.encode (Json.canonical_json v) = some bytes) ↔
      ∀ s ∈ strings v, Text.Encodable s := by
  rw [← Json.encodable_canonical_json, ← Text.encode_isSome, Option.isSome_iff_exists]

theorem mapM_mem {α β : Type} {f : α → Checked β} {l : List α} {result : List β}
    (h : l.mapM f = .ok result) : ∀ a ∈ l, ∃ b, f a = .ok b := by
  induction l generalizing result with
  | nil => simp
  | cons a rest ih =>
      rw [List.mapM_cons, bind_ok] at h
      obtain ⟨b, first, others⟩ := h
      obtain ⟨bs, later, -⟩ := bind_ok.mp others
      exact List.forall_mem_cons.mpr ⟨⟨b, first⟩, ih later⟩

/-- An accepted tree is published as it should be if and only if it is `Publishable`. -/
theorem published_iff {root : RegistryRoot} {modules : List Module}
    (accepted : load_registry lib root = .ok modules) (int_max_str_digits : Nat)
    {place : OutputPath} (safe : place.refused = false) :
    (∃ files, build lib int_max_str_digits place root = .ok files ∧ Published lib modules files) ↔
      Publishable int_max_str_digits modules := by
  obtain ⟨valid, distinct⟩ := load_registry_ok accepted
  have limited : (modules.any fun m => m.versions.any fun r =>
      !withinLimit int_max_str_digits r.version) = false ↔
      ∀ m ∈ modules, ∀ r ∈ m.versions, withinLimit int_max_str_digits r.version = true := by
    simp
  constructor
  · rintro ⟨files, built, -⟩
    simp only [build, accepted, ok_bind, safe, Bool.false_eq_true, if_false, guard_ok error_ok,
      build_index_ok valid, bind_ok, write_text_ok, Bool.not_eq_true, limited] at built
    obtain ⟨numbers, index_json, -, written, each, -⟩ := built
    refine fun m mem => ⟨?_, numbers m mem⟩
    obtain ⟨file, wrote⟩ := mapM_mem each m mem
    obtain ⟨bytes, encoded, -⟩ := (writeModule_ok (valid m mem)).mp wrote
    intro s inside
    exact encode_canonical_json.mp ⟨bytes, encoded⟩ s ((mem_strings_canonical m).mpr inside)
  · intro publishable
    have texts := fun m mem => (publishable m mem).1
    have each : ∀ m ∈ modules,
        ∃ bytes, Text.encode (Json.canonical_json (.obj (canonical m).toDict)) = some bytes :=
      fun m mem => encode_canonical_json.mpr fun s inside =>
        texts m mem s ((mem_strings_canonical m).mp inside)
    obtain ⟨index_json, index⟩ := encode_canonical_json.mpr (encodable_index texts)
    let written := fun m : Module =>
      (Text.encode (Json.canonical_json (.obj (canonical m).toDict))).getD ByteArray.empty
    have encoded : ∀ m ∈ modules,
        Text.encode (Json.canonical_json (.obj (canonical m).toDict)) = some (written m) := by
      intro m mem
      obtain ⟨bytes, encoded⟩ := each m mem
      rw [encoded, show written m = bytes by simp [written, encoded]]
    have files : modules.mapM writeModule =
        .ok (modules.map fun m => (moduleFile m.id, written m)) :=
      mapM_ok fun m mem => (writeModule_ok (valid m mem)).mpr ⟨written m, encoded m mem, rfl⟩
    refine ⟨_, ?_, published_of_written valid distinct index encoded⟩
    have numbers := limited.mpr fun m mem => (publishable m mem).2
    simp only [build, accepted, ok_bind, safe, Bool.false_eq_true, if_false, numbers,
      build_index_ok valid, write_text_ok.mpr index, files]

/-! Two trees: one that is published, and one with a surrogate in a name. -/

def distPath : OutputPath where
  repository_root := [text "srv"]
  registry_root := [text "srv", text "registry"]
  output := text "dist"
  resolved_output := [text "srv", text "dist"]
  is_symlink := false

theorem roads_published : ∃ files, build plainLibrary 4300 distPath roadsBefore.root = .ok files ∧
    Published plainLibrary roadsBefore.modules files := by
  have safe : distPath.refused = false := by decide
  have publishable : Publishable 4300 roadsBefore.modules := by
    unfold Publishable
    decide +kernel
  exact (published_iff roadsBefore.accepted 4300 safe).mpr publishable

/-- A module file whose name is written with the escape of a lone surrogate -/
def surrogateDocument : Text :=
  text "\x7b\"schema_version\": 1, \"id\": \"roads\", \"name\": \"\\ud800\", \"license\": \"MIT\", " ++
  text "\"publisher\": \x7b\"id\": \"okl\", \"name\": \"OKLab\"\x7d, " ++
  text "\"classification\": \"reviewed-community\", " ++
  text "\"source_repository\": \"https://github.com/okl/roads\", \"versions\": [" ++
  Json.canonical_json (.obj roadsOnGitHub.toDict) ++ text "]\x7d"

def surrogateRoot : RegistryRoot where
  path := text "registry"
  envelope := some (text "\x7b\"schema_version\": 1\x7d")
  modules := Table.ofList [(text "roads.json", surrogateDocument)]

def surrogateModule : Module :=
  { roadsModule [roadsOnGitHub] with name := [.ofNat 0xd800] }

/-- The tree is accepted, and building it raises an exception. -/
theorem surrogate_accepted_not_built :
    load_registry plainLibrary surrogateRoot = .ok [surrogateModule] ∧
      build plainLibrary 4300 distPath surrogateRoot = .error .value_error := by
  have accepted : load_registry plainLibrary surrogateRoot = .ok [surrogateModule] := by
    decide +kernel
  have index := build_index_ok (load_registry_ok accepted).1
  have refused : Text.encode (Json.canonical_json (.obj (indexOf [surrogateModule]).toDict)) = none :=
    if_neg (by decide +kernel)
  have safe : distPath.refused = false := by decide
  have numbers : ([surrogateModule].any fun m => m.versions.any fun r =>
      !withinLimit 4300 r.version) = false := by decide +kernel
  refine ⟨accepted, ?_⟩
  simp only [build, accepted, ok_bind, safe, Bool.false_eq_true, if_false, numbers, index, write_text,
    refused]
  rfl

end PackageRegistry
