import PackageRegistry.Database.Tables
import PackageRegistry.Lib.JsonEquality
import PackageRegistry.Registry.Index

/-! # The repository

`RegistryDatabaseRepository` of `web/backend/app/db/repository.py`, and the boundary of
`web/backend/app/api/registry_compatibility.py`. Nothing flushes later than it is needed, so a
row is written where it is added.
-/

namespace PackageRegistry.Database

open Transactions Relational

/-- JSONB may write a number in another way. The strings of an object come back. -/
def KeepsStrings (jsonb : Json → Json) : Prop :=
  ∀ fields, Json.Plain (.obj fields) → ∃ fields', jsonb (.obj fields) = .obj fields' ∧
    Json.Plain (.obj fields') ∧
    ∀ key t, fields.lookup key = some (.str t) → fields'.lookup key = some (.str t)

/-- What the code finds outside -/
structure Settings where
  lib : Library
  /-- Whether a text can be stored: no NUL and no surrogate -/
  storable : Text → Bool
  /-- What comes back from a JSONB column -/
  jsonb : Json → Json
  jsonb_keeps : KeepsStrings jsonb
  sha256 : Promotion.Hash
  config : Builder.Document
  environment_policy : Dict
  /-- `SELECT version_num FROM alembic_version` -/
  revisions : List Text

/-! ## Records -/

/-- `session.get` -/
def get (T : TableName) (key : Text) : Program (Option (Row T)) :=
  Tx.query () fun db => db.row T key

/-- Foreign keys -/
def referAll : List (TableName × Text) → Program Unit
  | [] => pure ()
  | (T, key) :: rest => do
      refer () T key
      referAll rest

section

variable (s : Settings)

def sendable (T : TableName) (key : Text) (row : Row T) : Program Unit :=
  if (texts T key row).all s.storable then pure () else raise .data

/-- `session.add` and `flush` -/
def add (T : TableName) (key : Text) (row : Row T) : Program Unit := do
  sendable s T key row
  insertRow () T key row
  referAll (references T row)

/-- `INSERT ... ON CONFLICT DO NOTHING` -/
def insertIfAbsent (T : TableName) (key : Text) (row : Row T) : Program Unit := do
  sendable s T key row
  let fresh ← Tx.insertNew () (.row T key) (fun db => (db.row T key).isSome) ⟨T, key, .insert row⟩
  if fresh then referAll (references T row) else pure ()

/-- The comparison of `ensure_record` -/
def expectRecord (T : TableName) (columns : List Text) (expected : Row T → Bool) :
    Option (Row T) → Program (Row T)
  | some record =>
      if expected record then pure record else raise (.conflict (.record T columns))
  | none => raise (.conflict (.record T columns))

def ensure_record (T : TableName) (columns : List Text) (key : Text) (row : Row T)
    (expected : Row T → Bool) : Program (Row T) := do
  match ← get T key with
  | some record => expectRecord T columns expected (some record)
  | none => do
      insertIfAbsent s T key row
      let record ← get T key
      expectRecord T columns expected record

end

def ensure_publisher (s : Settings) (publisher : Publisher) : Program PublisherRow :=
  ensure_record s .publishers [publisher.id] publisher.id ⟨publisher.name⟩
    fun record => record.name = publisher.name

def ensure_artifact (s : Settings) (digest : Text) : Program ArtifactRow :=
  ensure_record s .artifacts [text "sha256", digest] digest ⟨none, none⟩ fun _ => true

/-! ## Structures -/

def headOf (id : Text) (module : ModuleRow) (publisher : PublisherRow) : ModuleHead where
  schema_version := .int
  id := id
  name := module.name
  description := module.description
  publisher := ⟨module.publisher_id, publisher.name⟩
  classification := module.classification
  source_repository := module.source_repository
  license := module.license
  homepage := module.homepage
  documentation_url := module.documentation_url

def releaseOf (version : ModuleVersion) (dependencies : List ModuleDependency) : Release where
  version := version.version
  channel := version.historical_publication_channel
  artifact := ⟨version.artifact_original_url, version.artifact_id⟩
  bundle_format_version := .int
  source_commit := version.source_commit
  source_tag := version.source_tag
  requires :=
    { host := version.host_compatibility
      sdk := version.sdk_compatibility
      modules := Table.ofList (dependencies.map fun d => (d.dependency_module_id, d.specifier)) }

def module_structure (id : Text) (module : ModuleRow) : Program ModuleHead := do
  match ← get .publishers module.publisher_id with
  | some publisher => pure (headOf id module publisher)
  | none => raise .data

/-- The rows of a table that match, by primary key -/
def rows (db : Db) (T : TableName) (p : Row T → Bool) : List (Row T) :=
  ((db.table T).toList.filter fun row => p row.2).map (·.2)

def ownedBy (module_id version : Text) (d : ModuleDependency) : Bool :=
  d.owner_module_id == module_id && d.owner_version == version

def release_structure (version : ModuleVersion) : Program Release := do
  match ← get .artifacts version.artifact_id with
  | none => raise .data
  | some _ => do
      let dependencies ← Tx.query () fun db =>
        rows db .module_dependencies (ownedBy version.module_id version.version)
      pure (releaseOf version dependencies)

/-- Python takes `1` and `1.0` for equal. -/
def Release.stored (release : Release) : Release := { release with bundle_format_version := .int }

def historical_provenance (module : ModuleRow) (release : Release) : BuildProvenance where
  source_repository := module.source_repository
  source_tag := release.source_tag
  source_commit := release.source_commit
  builder_version := none
  builder_commit := none
  host_commit := none
  reproducible := none
  host_contract_status := none
  environment_json := none

def sameEnvironment : Option Json → Option Json → Bool
  | none, none => true
  | some v, some w => Json.equal v w
  | _, _ => false

/-- No field of the evidence differs. -/
def BuildProvenance.agrees (provenance evidence : BuildProvenance) : Bool :=
  provenance.source_repository == evidence.source_repository &&
    provenance.source_tag == evidence.source_tag &&
    provenance.source_commit == evidence.source_commit &&
    provenance.builder_version == evidence.builder_version &&
    provenance.builder_commit == evidence.builder_commit &&
    provenance.host_commit == evidence.host_commit &&
    provenance.reproducible == evidence.reproducible &&
    provenance.host_contract_status == evidence.host_contract_status &&
    sameEnvironment provenance.environment_json evidence.environment_json

/-! ## Published versions -/

section

variable (s : Settings)

/-- A version that is there already -/
def checkPrevious (module_id : Text) (release : Release) (historical_order : Option Nat)
    (promoted : Bool) (evidence : BuildProvenance) (previous : ModuleVersion) : Program Bool :=
  if historical_order.any (· != previous.historical_order) then
    conflict (text "Historical version order conflict")
  else do
    let structure_ ← release_structure previous
    if structure_ ≠ Release.stored release ∨ previous.published_at.isSome ≠ promoted then
      conflict (text "Immutable version conflict: " ++ module_id ++ text "@" ++ release.version)
    else if previous.build_provenance.agrees evidence = false then
      conflict (text "Historical provenance conflict: " ++ module_id)
    else pure false

/-- `func.max`, and what follows it -/
def nextOrder (db : Db) (module_id : Text) : Nat :=
  ((rows db .module_versions fun v => v.module_id == module_id).map
    fun v => v.historical_order + 1).foldl max 0

def checkTargets : List Text → Program Unit
  | [] => pure ()
  | target :: rest => do
      match ← get .modules target with
      | none => conflict (text "Missing dependency module: " ++ target)
      | some _ => checkTargets rest

/-- `session.add_all` of the dependencies -/
def addDependencies (module_id version : Text) : List (Text × Text) → Program Unit
  | [] => pure ()
  | (target, specifier) :: rest => do
      add s .module_dependencies (dependencyId module_id version target)
        ⟨module_id, version, target, specifier⟩
      addDependencies module_id version rest

def versionRow (module_id : Text) (release : Release) (historical_order : Nat)
    (evidence : BuildProvenance) (published_at : Option Time) : ModuleVersion where
  module_id := module_id
  version := release.version
  artifact_id := release.artifact.sha256
  artifact_original_url := release.artifact.url
  historical_order := historical_order
  build_provenance := { evidence with environment_json := evidence.environment_json.map s.jsonb }
  source_tag := release.source_tag
  source_commit := release.source_commit
  host_compatibility := release.requires.host
  sdk_compatibility := release.requires.sdk
  historical_publication_channel := release.channel
  published_at := published_at

def orderFor (module_id : Text) : Option Nat → Program Nat
  | some historical_order => pure historical_order
  | none => Tx.query () fun db => nextOrder db module_id

def insertVersion (module_id : Text) (release : Release) (historical_order : Option Nat)
    (evidence : BuildProvenance) (published_at : Option Time) : Program Bool := do
  let order ← orderFor module_id historical_order
  checkTargets (release.requires.modules.toList.map (·.1))
  let _ ← ensure_artifact s release.artifact.sha256
  add s .module_versions (versionId module_id release.version)
    (versionRow s module_id release order evidence published_at)
  addDependencies s module_id release.version release.requires.modules.toList
  pure true

/-- The evidence, and the time of publication of a promoted version -/
structure Promoted where
  provenance_values : BuildProvenance
  now : Time

def insert_published_version (module_id : Text) (release : Release) (historical_order : Option Nat)
    (promoted : Option Promoted) : Program Bool := do
  match ← selectForUpdate () .modules fun id _ => id == module_id with
  | none => conflict (text "Missing module: " ++ module_id)
  | some (_, module) => do
      let head ← module_structure module_id module
      let _ ← checked (validate_module s.lib (Module.toDict ⟨head, [release]⟩) (text "DB version") none)
      let evidence := (promoted.map (·.provenance_values)).getD (historical_provenance module release)
      match ← get .module_versions (versionId module_id release.version) with
      | some previous =>
          checkPrevious module_id release historical_order promoted.isSome evidence previous
      | none =>
          insertVersion s module_id release historical_order evidence (promoted.map (·.now))

end

/-! ## Projections -/

/-- The published modules, with their publishers -/
def module_candidates (db : Db) (module_id : Option Text) :
    List (Text × ModuleRow × PublisherRow) :=
  (db.table .modules).toList.filterMap fun module =>
    if (module_id.all (· == module.1) &&
        (db.table .module_versions).toList.any fun v => v.2.module_id == module.1) then
      (db.row .publishers module.2.publisher_id).map fun publisher => (module.1, module.2, publisher)
    else none

/-- The versions of modules with their artifacts, in the order in which they are projected -/
def orderedVersions (db : Db) (ids : List Text) : List ModuleVersion :=
  sortBy (fun v => toLex (v.module_id, v.historical_order))
    (rows db .module_versions fun v =>
      ids.contains v.module_id && (db.row .artifacts v.artifact_id).isSome)

def projected (dependencies : List ModuleDependency) (versions : List ModuleVersion)
    (module : Text × ModuleRow × PublisherRow) : Module where
  toModuleHead := headOf module.1 module.2.1 module.2.2
  versions := (versions.filter fun v => v.module_id == module.1).map fun v =>
    releaseOf v (dependencies.filter (ownedBy v.module_id v.version))

def project_v1 (module_id : Option Text) : Program (List Module) := do
  let modules ← Tx.query () fun db => module_candidates db module_id
  let ids := modules.map (·.1)
  let dependencies ← Tx.query () fun db =>
    rows db .module_dependencies fun d => ids.contains d.owner_module_id
  let versions ← Tx.query () fun db => orderedVersions db ids
  pure ((sortBy (·.1) modules).map (projected dependencies versions))

/-- A pointer, joined with its version and the artifact -/
def targetOf (db : Db) (pointer : ModuleChannel) : Option Target := do
  let version ← db.row .module_versions (versionId pointer.module_id pointer.version)
  let _ ← db.row .artifacts version.artifact_id
  pure ⟨pointer.version, version.artifact_id⟩

def channelTargets (db : Db) (module_ids : Option (List Text)) :
    Table Text (Table Channel Target) :=
  (rows db .module_channels fun c => module_ids.all (·.contains c.module_id)).foldl
    (fun result pointer =>
      match targetOf db pointer with
      | none => result
      | some target => result.alter pointer.module_id fun channels =>
          some ((channels.getD ∅).insert pointer.channel target))
    ∅

def channel_targets (module_ids : Option (List Text)) :
    Program (Table Text (Table Channel Target)) :=
  Tx.query () fun db => channelTargets db module_ids

/-! ## The boundary of v1 -/

instance lawfulBEqTargets : LawfulBEq (Table Channel Target) := inferInstance

def validateProjected (lib : Library) (module : Module) : Except DatabaseException Unit := do
  let _ ← (validate_module lib module.toDict (text "Registry v1 DB projection") none).mapError
    .registry
  .ok ()

def validate_v1_representability (lib : Library) (modules : List Module)
    (channel_targets : Table Text (Table Channel Target)) : Except DatabaseException Index := do
  modules.forM (validateProjected lib)
  let index ← (build_index lib modules).mapError .registry
  let expected := Table.ofList (index.modules.map fun entry => (entry.id, entry.channels))
  if expected ≠ channel_targets then .error .representability
  else .ok ⟨index.modules.map fun entry =>
    { entry with channels := (channel_targets[entry.id]?).getD ∅ }⟩

end PackageRegistry.Database
