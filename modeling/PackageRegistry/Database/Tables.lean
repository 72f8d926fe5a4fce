import PackageRegistry.Lib.Guards
import PackageRegistry.Promotion.Reviewed
import PackageRegistry.Store.Publish

/-! # The tables of the registry

`web/backend/app/db/models.py`, with the columns that the operations read. A publisher and a module
are found under their ids, an artifact under its digest and an event under its key; the other
rows have keys of two or three columns. The provenance of a version is inserted with it and read
through it, so it is a part of its row.
-/

namespace PackageRegistry.Database

open Transactions Relational
open PackageRegistry.Promotion (ReviewedCandidate ApprovalFailure)

abbrev Time := Int

structure PublisherRow where
  name : Text
  deriving DecidableEq

structure ModuleRow where
  name : Text
  description : Option Text
  homepage : Option Text
  documentation_url : Option Text
  publisher_id : Text
  classification : Classification
  license : Text
  source_repository : Text
  deriving DecidableEq

structure ArtifactRow where
  byte_size : Option Nat
  storage_locator : Option Text
  deriving DecidableEq

structure BuildProvenance where
  source_repository : Text
  source_tag : Option Text
  source_commit : Text
  builder_version : Option Text
  builder_commit : Option Text
  host_commit : Option Text
  reproducible : Option Bool
  host_contract_status : Option Text
  environment_json : Option Json

/-- `bundle_format_version` is always 1. -/
structure ModuleVersion where
  module_id : Text
  version : Text
  artifact_id : Text
  artifact_original_url : Text
  historical_order : Nat
  build_provenance : BuildProvenance
  source_tag : Option Text
  source_commit : Text
  host_compatibility : Text
  sdk_compatibility : Text
  historical_publication_channel : Channel
  published_at : Option Time

structure ModuleDependency where
  owner_module_id : Text
  owner_version : Text
  dependency_module_id : Text
  specifier : Text
  deriving DecidableEq

structure ModuleChannel where
  module_id : Text
  channel : Channel
  version : Text
  revision : Nat
  deriving DecidableEq

structure PromotionIntent where
  module_id : Text
  version : Text
  approval_pr : Int
  candidate_sha256 : Text
  bundle_sha256 : Text
  channel : Text
  expected_channel_revision : Int
  idempotency_key : Text
  deriving DecidableEq

/-- What a promotion returns -/
structure PromotionResult where
  promotion_id : Text
  module : Text
  version : Text
  channel : Channel
  previous_channel_target : Option Text
  new_channel_target : Text
  channel_revision : Nat
  artifact_sha256 : Text
  artifact_url : Text
  storage_locator : Text
  byte_size : Nat
  status : String
  deriving DecidableEq

structure PromotionEvent where
  module_id : Text
  version : Text
  channel : Channel
  candidate_digest : Text
  approval_reference : Text
  approval_identity : Json
  previous_channel_version : Option Text
  new_channel_version : Text
  intent : Json
  result : PromotionResult

inductive TableName where
  | publishers
  | modules
  | artifacts
  | module_versions
  | module_dependencies
  | module_channels
  | promotion_events
  deriving DecidableEq

@[reducible] def Row : TableName → Type
  | .publishers => PublisherRow
  | .modules => ModuleRow
  | .artifacts => ArtifactRow
  | .module_versions => ModuleVersion
  | .module_dependencies => ModuleDependency
  | .module_channels => ModuleChannel
  | .promotion_events => PromotionEvent

/-- Advisory locks, and the values of a unique index -/
inductive Key where
  /-- `pg_advisory_xact_lock(450044)` -/
  | shadow_import
  /-- `pg_advisory_xact_lock(hashtextextended(:key, 49))`: two keys with one hash only wait more. -/
  | promotion (idempotency_key : Text)
  | promotion_events_version (module_id version : Text)
  deriving DecidableEq

inductive RegistryConflict where
  /-- `Conflicting ... record: ...` -/
  | record (table : TableName) (columns : List Text)
  | message (message : Text)
  deriving DecidableEq

inductive DatabaseException where
  | conflict (e : RegistryConflict)
  | registry (e : RegistryError)
  /-- `V1RepresentabilityError` -/
  | representability
  /-- `NotFound` of the routes -/
  | notFound
  | approval (e : ApprovalFailure)
  | store (e : Store.StoreError)
  /-- A `DataError`, or a value of a type that the code does not expect -/
  | data

abbrev Db := Database Row
abbrev Lock := Resource TableName Key
abbrev Program (α : Type) := Statement Row Key Unit DatabaseException α
abbrev World (α : Type) := State Db Lock (Write Row) Unit (Failure DatabaseException) α

def raise {α : Type} (e : DatabaseException) : Program α := .raise (.error e)

/-- `raise RegistryConflict` -/
def conflict {α : Type} (message : Text) : Program α := raise (.conflict (.message message))

def checked {α : Type} : Checked α → Program α
  | .ok a => pure a
  | .error e => raise (.registry e)

/-! ## Keys -/

def versionId (module_id version : Text) : Text := Text.pair module_id version

def dependencyId (module_id version target : Text) : Text :=
  Text.pair module_id (Text.pair version target)

def channelId (module_id : Text) (channel : Channel) : Text := Text.pair module_id channel.name

/-- The foreign keys of a row -/
def references : (T : TableName) → Row T → List (TableName × Text)
  | .modules, row => [(.publishers, row.publisher_id)]
  | .module_versions, row => [(.modules, row.module_id), (.artifacts, row.artifact_id)]
  | .module_dependencies, row =>
      [(.module_versions, versionId row.owner_module_id row.owner_version),
        (.modules, row.dependency_module_id)]
  | .module_channels, row => [(.module_versions, versionId row.module_id row.version)]
  | .promotion_events, row => [(.module_versions, versionId row.module_id row.version)]
  | .publishers, _ | .artifacts, _ => []

/-! ## Texts -/

def BuildProvenance.texts (p : BuildProvenance) : List Text :=
  [p.source_repository, p.source_commit] ++ p.source_tag.toList ++ p.builder_version.toList ++
    p.builder_commit.toList ++ p.host_commit.toList ++ p.host_contract_status.toList

/-- The texts of a row, its keys included -/
def texts : (T : TableName) → Text → Row T → List Text
  | .publishers, id, row => [id, row.name]
  | .modules, id, row =>
      [id, row.name, row.publisher_id, row.license, row.source_repository] ++
        row.description.toList ++ row.homepage.toList ++ row.documentation_url.toList
  | .artifacts, digest, row => digest :: row.storage_locator.toList
  | .module_versions, _, row =>
      [row.module_id, row.version, row.artifact_original_url, row.source_commit,
        row.host_compatibility, row.sdk_compatibility] ++ row.source_tag.toList ++
        row.build_provenance.texts
  | .module_dependencies, _, row =>
      [row.owner_module_id, row.owner_version, row.dependency_module_id, row.specifier]
  | .module_channels, _, row => [row.module_id, row.version]
  | .promotion_events, key, row =>
      [key, row.module_id, row.version, row.candidate_digest, row.approval_reference] ++
        row.previous_channel_version.toList

end PackageRegistry.Database
