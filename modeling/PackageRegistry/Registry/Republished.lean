import Mathlib.Data.List.Perm.Basic
import PackageRegistry.Registry.Build

/-! # A published directory is a source tree

The module files that `build` writes can be checked in as `registry/modules/`: they are accepted
again, as the same modules, and building from them writes the same files.
-/

namespace PackageRegistry

open Checks

variable {lib : Library}

/-! ## Canonical documents -/

theorem values_optional {key : Text} {value : Option Text} :
    ∀ f ∈ optional key value, f.2.sortKeys = f.2 :=
  forall_mem_optional.mpr fun _ _ => rfl

theorem sortKeys_one (one : One) : one.toJson.sortKeys = one.toJson := by
  cases one <;> rfl

theorem sortKeys_publisher (publisher : Publisher) :
    (Json.obj publisher.toDict).sortKeys = .obj publisher.toDict := by
  refine Json.sortKeys_obj (by simp +decide [Publisher.toDict]) ?_
  simp [Publisher.toDict, Json.sortKeys]

theorem sortKeys_dependencies (modules : Table Text Text) :
    (Json.obj (dependenciesToDict modules)).sortKeys = .obj (dependenciesToDict modules) := by
  refine Json.sortKeys_obj ?_ fun f mem => ?_
  · rw [dependenciesToDict, List.map_map]
    exact List.pairwise_map.mpr
      (modules.ordered_keys_toList.imp fun smaller => (Text.lt_of_compare smaller).le)
  · obtain ⟨d, -, rfl⟩ := List.mem_map.mp mem
    rfl

theorem sortKeys_release (release : Release) :
    (Json.obj release.toDict).sortKeys = .obj release.toDict := by
  have artifact : (Json.obj release.artifact.toDict).sortKeys = .obj release.artifact.toDict :=
    Json.sortKeys_obj (by simp +decide [ReleaseArtifact.toDict])
      (by simp [ReleaseArtifact.toDict, Json.sortKeys])
  have requires : (Json.obj release.requires.toDict).sortKeys = .obj release.requires.toDict := by
    refine Json.sortKeys_obj (by simp +decide [Requires.toDict]) ?_
    simp only [Requires.toDict, List.forall_mem_cons]
    exact ⟨rfl, sortKeys_dependencies _, rfl, by simp⟩
  refine Json.sortKeys_obj ?_ ?_
  · cases tag : release.source_tag <;> simp +decide [Release.toDict, optional, tag]
  · simp only [Release.toDict, List.forall_mem_append, List.forall_mem_cons]
    exact ⟨⟨⟨artifact, sortKeys_one _, rfl, requires, rfl, by simp⟩, values_optional⟩, rfl,
      by simp⟩

theorem sortKeys_module (m : Module) : (Json.obj m.toDict).sortKeys = .obj m.toDict := by
  have versions : (Json.arr (m.versions.map fun release => .obj release.toDict)).sortKeys =
      .arr (m.versions.map fun release => .obj release.toDict) := by
    refine Json.sortKeys_arr fun v mem => ?_
    obtain ⟨r, -, rfl⟩ := List.mem_map.mp mem
    exact sortKeys_release r
  refine Json.sortKeys_obj ?_ ?_
  · cases description : m.description <;> cases documentation : m.documentation_url <;>
      cases homepage : m.homepage <;>
      simp +decide [Module.toDict, optional, description, documentation, homepage]
  · simp only [Module.toDict, List.forall_mem_append, List.forall_mem_cons]
    exact ⟨⟨⟨⟨⟨rfl, by simp⟩, values_optional⟩, values_optional⟩, values_optional⟩, rfl, rfl, rfl,
      sortKeys_publisher _, sortKeys_one _, rfl, versions, by simp⟩

/-- A canonical module file is decoded as the dictionary of the module. -/
theorem decode_canonical (m : Module) (origin : Text) :
    decode_json lib (Json.canonical_json (.obj m.toDict)) origin = .ok m.toDict := by
  rw [decode_json, Json.loads_canonical_json (plain_module m), sortKeys_module]

/-! ## The files of a source tree -/

/-- A file that holds a module -/
def FileOf (lib : Library) (directory : Text) (file : Text × Text) (m : Module) : Prop :=
  stem file.1 = m.id ∧ ∃ document,
    decode_json lib file.2 (directory ++ text "/" ++ file.1) = .ok document ∧
      validate_module lib document (directory ++ text "/" ++ file.1) none = .ok m

theorem loadModules_iff {directory : Text} {seen : List Text} {files : List (Text × Text)}
    {modules : List Module} :
    loadModules lib directory seen files = .ok modules ↔
      List.Forall₂ (FileOf lib directory) files modules ∧ (∀ m ∈ modules, m.id ∉ seen) ∧
        (modules.map (·.id)).Nodup := by
  induction files generalizing seen modules with
  | nil =>
      rw [loadModules, Except.ok.injEq, List.forall₂_nil_left_iff]
      constructor
      · rintro rfl
        simp
      · rintro ⟨none_left, -⟩
        exact none_left.symm
  | cons file rest ih =>
      obtain ⟨name, content⟩ := file
      simp only [loadModules, bind_ok, guard_ok error_ok, not_not, List.contains_iff_mem,
        Except.ok.injEq, ih]
      constructor
      · rintro ⟨document, decoded, m, accepted, new, named, others, ⟨each, unseen, distinct⟩, rfl⟩
        refine ⟨.cons ⟨named, document, decoded, accepted⟩ each, ?_, ?_⟩
        · intro other mem old
          rcases List.mem_cons.mp mem with rfl | later
          · exact new old
          · exact unseen other later (List.mem_cons_of_mem _ old)
        · rw [List.map_cons, List.nodup_cons]
          refine ⟨fun again => ?_, distinct⟩
          obtain ⟨other, mem, same⟩ := List.mem_map.mp again
          exact unseen other mem (by simp [same])
      · rintro ⟨each, unseen, distinct⟩
        cases each with
        | cons first later =>
            rename_i m others
            obtain ⟨named, document, decoded, accepted⟩ := first
            rw [List.map_cons, List.nodup_cons] at distinct
            rw [List.forall_mem_cons] at unseen
            refine ⟨document, decoded, m, accepted, unseen.1, named, others,
              ⟨later, fun other mem old => ?_, distinct.2⟩, rfl⟩
            rcases List.mem_cons.mp old with same | old
            · exact distinct.1 (List.mem_map.mpr ⟨other, mem, same⟩)
            · exact unseen.2 other mem old

/-- What `load_registry` makes of the envelope -/
def envelopeOf (lib : Library) (root : RegistryRoot) : Checked Unit :=
  match root.envelope with
  | none =>
      .error (.validation (text "missing registry source envelope: " ++ root.path ++
        text "/registry.json"))
  | some content => do
      let envelope ← decode_json lib content (root.path ++ text "/registry.json")
      let keys := [text "schema_version"]
      _exact_keys envelope keys keys (root.path ++ text "/registry.json")
      let _ ← _schema_version lib (required envelope "schema_version")
        (root.path ++ text "/registry.json")
      .ok ()

theorem load_registry_iff {root : RegistryRoot} {modules : List Module} :
    load_registry lib root = .ok modules ↔ envelopeOf lib root = .ok () ∧
      ∃ loaded, List.Forall₂ (FileOf lib (root.path ++ text "/modules")) root.files loaded ∧
        (loaded.map (·.id)).Nodup ∧ modules = sortBy (fun m => m.id) loaded := by
  have split : load_registry lib root = .ok modules ↔ envelopeOf lib root = .ok () ∧
      ∃ loaded, loadModules lib (root.path ++ text "/modules") [] root.files = .ok loaded ∧
        modules = sortBy (fun m => m.id) loaded := by
    unfold load_registry envelopeOf
    cases root.envelope with
    | none => simp
    | some content =>
        simp only [bind_ok, Except.ok.injEq, and_true, @eq_comm _ modules]
        grind
  simp [split, loadModules_iff, and_assoc]

/-! ## What `build` has written -/

/-- What is written for a module that can be encoded -/
def moduleBytes (m : Module) : ByteArray :=
  (Text.encode (Json.canonical_json (.obj (canonical m).toDict))).getD .empty

theorem canonical_canonical (m : Module) : canonical (canonical m) = canonical m := by
  rw [canonical, canonical, StableSort.sortBy_sortBy]

theorem moduleBytes_canonical (m : Module) : moduleBytes (canonical m) = moduleBytes m := by
  rw [moduleBytes, moduleBytes, canonical_canonical]

/-- The files of a deployment -/
def deploymentOf (index_json : ByteArray) (modules : List Module) : Deployment :=
  Table.ofList ((text "index.json", index_json) ::
    modules.map fun m => (moduleFile m.id, moduleBytes m))

theorem build_iff {int_max_str_digits : Nat} {place : OutputPath} {root : RegistryRoot}
    {files : Deployment} :
    build lib int_max_str_digits place root = .ok files ↔
      ∃ modules, load_registry lib root = .ok modules ∧ place.refused = false ∧
        (∀ m ∈ modules, ∀ r ∈ m.versions, withinLimit int_max_str_digits r.version = true) ∧
        ∃ index_json,
          Text.encode (Json.canonical_json (.obj (indexOf modules).toDict)) = some index_json ∧
        (∀ m ∈ modules,
          Text.encode (Json.canonical_json (.obj (canonical m).toDict)) = some (moduleBytes m)) ∧
        files = deploymentOf index_json modules := by
  constructor
  · intro built
    simp only [build, bind_ok] at built
    obtain ⟨modules, accepted, built⟩ := built
    have valid := (load_registry_ok accepted).1
    simp only [guard_ok error_ok, Bool.not_eq_true, build_index_ok valid, ok_bind, bind_ok,
      write_text_ok, Except.ok.injEq] at built
    obtain ⟨safe, numbers, index_json, index, listed, each, rfl⟩ := built
    have encoded : ∀ m ∈ modules, Text.encode (Json.canonical_json (.obj (canonical m).toDict)) =
        some (moduleBytes m) := by
      intro m mem
      obtain ⟨file, wrote⟩ := mapM_mem each m mem
      obtain ⟨bytes, encoded, -⟩ := (writeModule_ok (valid m mem)).mp wrote
      rw [moduleBytes, encoded, Option.getD_some]
    have same := mapM_ok fun m mem => (writeModule_ok (valid m mem)).mpr ⟨_, encoded m mem, rfl⟩
    rw [each, Except.ok.injEq] at same
    exact ⟨modules, accepted, safe, by simpa using numbers, index_json, index, encoded,
      by rw [same, deploymentOf]⟩
  · rintro ⟨modules, accepted, safe, numbers, index_json, index, encoded, rfl⟩
    have valid := (load_registry_ok accepted).1
    have limited : (modules.any fun m => m.versions.any fun r =>
        !withinLimit int_max_str_digits r.version) = false := by simpa using numbers
    have each : modules.mapM writeModule =
        .ok (modules.map fun m => (moduleFile m.id, moduleBytes m)) :=
      mapM_ok fun m mem => (writeModule_ok (valid m mem)).mpr ⟨_, encoded m mem, rfl⟩
    simp only [build, accepted, ok_bind, safe, Bool.false_eq_true, if_false, limited,
      build_index_ok valid, write_text_ok.mpr index, each, deploymentOf]

/-! ## Loading what was published -/

/-- A published module file under its name in a source tree -/
def sourceFile (file : Text × ByteArray) : Option (Text × Text) :=
  if Text.startsWith (text "modules/") file.1 then
    (Text.decode file.2).map fun content => (file.1.drop 8, content)
  else none

/-- The source tree in which the published module files replace `modules/` -/
def republished (root : RegistryRoot) (files : Deployment) : RegistryRoot where
  path := root.path
  envelope := root.envelope
  modules := Table.ofList (files.toList.filterMap sourceFile)

/-- The canonical file of a module, as it stands in a source tree -/
def canonicalFile (m : Module) : Text × Text :=
  (m.id ++ text ".json", Json.canonical_json (.obj m.toDict))

theorem stem_json {id : Text} (valid : IsId id) : stem (id ++ text ".json") = id := by
  have five : (text ".json").length = 5 := rfl
  have some_char : id ≠ [] := by
    rintro rfl
    exact absurd valid.2 (by decide)
  have longer : ¬(id ++ text ".json").length ≤ 5 := by
    have positive := List.length_pos_of_ne_nil some_char
    rw [List.length_append]
    omega
  rw [stem, if_neg longer, List.length_append, five, Nat.add_sub_cancel, List.take_left]

theorem canonicalFile_of {m : Module} (valid : ValidModule lib m) (directory : Text) :
    FileOf lib directory (canonicalFile m) m :=
  ⟨stem_json valid.id, m.toDict, decode_canonical m _, validate_module_complete valid _⟩

theorem sourceFile_iff {file : Text × ByteArray} {name content : Text} :
    sourceFile file = some (name, content) ↔
      file.1 = text "modules/" ++ name ∧ Text.decode file.2 = some content := by
  have eight : (text "modules/").length = 8 := rfl
  obtain ⟨path, bytes⟩ := file
  simp only [sourceFile, Option.ite_none_right_eq_some, Text.startsWith,
    List.isPrefixOf_iff_prefix, Option.map_eq_some_iff, Prod.mk.injEq]
  constructor
  · rintro ⟨⟨rest, rfl⟩, whole, decoded, rfl, rfl⟩
    rw [← eight, List.drop_left]
    exact ⟨rfl, decoded⟩
  · rintro ⟨rfl, decoded⟩
    refine ⟨List.prefix_append _ _, content, decoded, ?_, rfl⟩
    rw [← eight, List.drop_left]

theorem republished_distinct (files : Deployment) :
    ((files.toList.filterMap sourceFile).map (·.1)).Nodup := by
  have keys := List.pairwise_map.mp (Table.nodup_keys files)
  refine List.pairwise_map.mpr (List.pairwise_filterMap.mpr (keys.imp ?_))
  rintro first second different ⟨name, content⟩ read ⟨name', content'⟩ read' rfl
  have left := (sourceFile_iff.mp (Option.mem_def.mp read)).1
  have right := (sourceFile_iff.mp (Option.mem_def.mp read')).1
  exact different (left.trans right.symm)

theorem get_deploymentOf {modules : List Module} (distinct : (modules.map (·.id)).Nodup)
    (index_json : ByteArray) (path : Text) (bytes : ByteArray) :
    (deploymentOf index_json modules)[path]? = some bytes ↔
      path = text "index.json" ∧ bytes = index_json ∨
        ∃ m ∈ modules, path = moduleFile m.id ∧ bytes = moduleBytes m := by
  have names := distinct.map moduleFile_injective
  rw [List.map_map] at names
  have keys : (((text "index.json", index_json) ::
      modules.map fun m => (moduleFile m.id, moduleBytes m)).map (·.1)).Nodup := by
    rw [List.map_cons, List.map_map, List.nodup_cons]
    refine ⟨fun mem => ?_, names⟩
    obtain ⟨m, -, same⟩ := List.mem_map.mp mem
    exact moduleFile_ne_index m.id same
  rw [deploymentOf, Table.get_ofList keys]
  simp [eq_comm]

section

variable {modules : List Module} (distinct : (modules.map (·.id)).Nodup) (index_json : ByteArray)
  (each : ∀ m ∈ modules,
    Text.encode (Json.canonical_json (.obj (canonical m).toDict)) = some (moduleBytes m))
  (root : RegistryRoot)

include distinct each

theorem mem_republished (name content : Text) :
    (name, content) ∈ (republished root (deploymentOf index_json modules)).modules.toList ↔
      ∃ m ∈ modules, (name, content) = canonicalFile (canonical m) := by
  rw [Table.mem_toList, republished, Table.get_ofList (republished_distinct _),
    List.mem_filterMap]
  constructor
  · rintro ⟨⟨path, bytes⟩, mem, read⟩
    obtain ⟨here, decoded⟩ := sourceFile_iff.mp read
    rcases (get_deploymentOf distinct _ path bytes).mp ((Table.mem_toList _).mp mem) with
      ⟨index, -⟩ | ⟨m, inModules, file, rfl⟩
    · exact absurd (here.symm.trans index) (by simp +decide [text])
    · have written := Text.decode_encode (each m inModules)
      rw [decoded, Option.some.injEq] at written
      refine ⟨m, inModules, Prod.ext ?_ written⟩
      have same := here.symm.trans file
      rw [moduleFile, List.append_assoc] at same
      exact List.append_cancel_left same
  · rintro ⟨m, inModules, same⟩
    obtain ⟨rfl, rfl⟩ := Prod.mk.inj same
    have there := (get_deploymentOf distinct index_json (moduleFile m.id) (moduleBytes m)).mpr
      (.inr ⟨m, inModules, rfl, rfl⟩)
    refine ⟨_, (Table.mem_toList _).mpr there, sourceFile_iff.mpr ⟨?_, ?_⟩⟩
    · rw [moduleFile, List.append_assoc]
      rfl
    · exact Text.decode_encode (each m inModules)

/-- The files are the canonical ones of the modules. -/
theorem republished_files :
    (republished root (deploymentOf index_json modules)).files.Perm
      ((modules.map canonical).map canonicalFile) := by
  have all : ∀ f ∈ (republished root (deploymentOf index_json modules)).modules.toList,
      Text.endsWith (text ".json") f.1 = true := by
    rintro ⟨name, content⟩ mem
    obtain ⟨m, -, same⟩ := (mem_republished distinct index_json each root name content).mp mem
    rw [(Prod.mk.inj same).1]
    exact List.isSuffixOf_iff_suffix.mpr (List.suffix_append _ _)
  have names : ((modules.map canonical).map canonicalFile).Nodup := by
    have ids : ((modules.map (·.id)).map fun id : Text => id ++ text ".json").Nodup :=
      distinct.map fun a b same => List.append_cancel_right same
    rw [List.map_map] at ids ⊢
    refine List.Nodup.of_map (·.1) ?_
    rw [List.map_map]
    exact ids
  rw [RegistryRoot.files, List.filter_eq_self.mpr all]
  refine (List.perm_ext_iff_of_nodup (Table.nodup_keys _).of_map names).mpr ?_
  rintro ⟨name, content⟩
  rw [mem_republished distinct index_json each, List.map_map, List.mem_map]
  exact ⟨fun ⟨m, mem, same⟩ => ⟨m, mem, same.symm⟩, fun ⟨m, mem, same⟩ => ⟨m, mem, same.symm⟩⟩

end

/-- Publishing, and publishing again from what was published -/
structure PublishedAgain (lib : Library) (int_max_str_digits : Nat) (place : OutputPath)
    (root : RegistryRoot) (files : Deployment) : Prop where
  loaded : ∃ modules, load_registry lib root = .ok modules ∧
    load_registry lib (republished root files) = .ok (modules.map canonical)
  built : build lib int_max_str_digits place (republished root files) = .ok files

theorem build_again {int_max_str_digits : Nat} {place : OutputPath} {root : RegistryRoot}
    {files : Deployment} (built : build lib int_max_str_digits place root = .ok files) :
    PublishedAgain lib int_max_str_digits place root files := by
  obtain ⟨modules, accepted, safe, numbers, index_json, index, each, rfl⟩ := build_iff.mp built
  obtain ⟨valid, distinct⟩ := load_registry_ok accepted
  have valid' : ∀ m ∈ modules.map canonical, ValidModule lib m := by
    intro m mem
    obtain ⟨m, inModules, rfl⟩ := List.mem_map.mp mem
    exact (valid m inModules).canonical
  have distinct' : ((modules.map canonical).map (·.id)).Nodup := by
    rw [List.map_map]
    exact distinct
  have loaded : load_registry lib (republished root (deploymentOf index_json modules)) =
      .ok (modules.map canonical) := by
    obtain ⟨envelope, unsorted, -, -, sorted⟩ := load_registry_iff.mp accepted
    have holds : List.Forall₂ (FileOf lib (root.path ++ text "/modules"))
        ((modules.map canonical).map canonicalFile) (modules.map canonical) :=
      List.forall₂_map_left_iff.mpr
        (List.forall₂_same.mpr fun m mem => canonicalFile_of (valid' m mem) _)
    obtain ⟨listed, read, perm⟩ := List.perm_comp_forall₂
      (republished_files distinct index_json each root) holds
    have nodup := (perm.map (·.id)).nodup_iff.mpr distinct'
    refine load_registry_iff.mpr ⟨envelope, listed, read, nodup, ?_⟩
    have ordered : sortBy (fun m => m.id) (modules.map canonical) =
        (sortBy (fun m => m.id) modules).map canonical :=
      StableSort.sortBy_map (f := canonical) (fun m : Module => m.id) (fun _ => rfl) modules
    rw [StableSort.sortBy_perm _ perm nodup, ordered, sorted, StableSort.sortBy_sortBy]
  refine ⟨⟨modules, accepted, loaded⟩, ?_⟩
  refine build_iff.mpr ⟨modules.map canonical, loaded, safe, ?_, index_json, ?_, ?_, ?_⟩
  · intro m mem r inVersions
    obtain ⟨m, inModules, rfl⟩ := List.mem_map.mp mem
    exact numbers m inModules r ((StableSort.mem_sortBy _).mp inVersions)
  · rw [indexOf_canonical]
    exact index
  · intro m mem
    obtain ⟨m, inModules, rfl⟩ := List.mem_map.mp mem
    rw [canonical_canonical, moduleBytes_canonical]
    exact each m inModules
  · simp only [deploymentOf, List.map_map, Function.comp_def, moduleBytes_canonical]
    rfl

theorem roads_built_again : ∃ files, build plainLibrary 4300 distPath roadsBefore.root = .ok files ∧
    PublishedAgain plainLibrary 4300 distPath roadsBefore.root files := by
  obtain ⟨files, built, -⟩ := roads_published
  exact ⟨files, built, build_again built⟩

end PackageRegistry
