import PackageRegistry.Database.Repository

/-! # Importing a source tree

`import_registry` of `web/backend/app/registry_import_v1.py`.
-/

namespace PackageRegistry.Database

open Transactions Relational

/-- What an import reports, without the numbers of rows -/
structure Report where
  inserted_versions : Nat
  channels : Table Text (Table Channel Target)

def channelsByModule (index : Index) : Table Text (Table Channel Target) :=
  Table.ofList (index.modules.map fun entry => (entry.id, entry.channels))

def canonicalText (modules : List Module) : Text :=
  Json.canonical_json (.arr (modules.map fun module => .obj module.toDict))

def moduleRow (module : Module) : ModuleRow where
  name := module.name
  description := module.description
  homepage := module.homepage
  documentation_url := module.documentation_url
  publisher_id := module.publisher.id
  classification := module.classification
  license := module.license
  source_repository := module.source_repository

section

variable (s : Settings)

def ensure_module (module : Module) : Program ModuleRow :=
  ensure_record s .modules [module.id] module.id (moduleRow module)
    fun record => record = moduleRow module

def ensure_channel (module_id : Text) (channel : Channel) (target : Target) :
    Program ModuleChannel :=
  ensure_record s .module_channels [module_id, channel.name] (channelId module_id channel)
    ⟨module_id, channel, target.version, 1⟩ fun record => record.version = target.version

/-! The loops of an import -/

def ensurePublishers : List Module → Program Unit
  | [] => pure ()
  | module :: rest => do
      let _ ← ensure_publisher s module.publisher
      ensurePublishers rest

def ensureModules : List Module → Program Unit
  | [] => pure ()
  | module :: rest => do
      let _ ← ensure_module s module
      ensureModules rest

def insertReleases (module_id : Text) : Nat → List Release → Program Nat
  | _, [] => pure 0
  | position, release :: rest => do
      let inserted ← insert_published_version s module_id release (some position) none
      let others ← insertReleases module_id (position + 1) rest
      pure (if inserted then others + 1 else others)

def insertModules : List Module → Program Nat
  | [] => pure 0
  | module :: rest => do
      let inserted ← insertReleases s module.id 0 module.versions
      let others ← insertModules rest
      pure (inserted + others)

def ensureTargets (module_id : Text) : List (Channel × Target) → Program Unit
  | [] => pure ()
  | (channel, target) :: rest => do
      let _ ← ensure_channel s module_id channel target
      ensureTargets module_id rest

def ensureChannels : List (Text × Table Channel Target) → Program Unit
  | [] => pure ()
  | (module_id, targets) :: rest => do
      ensureTargets s module_id targets.toList
      ensureChannels rest

/-- The checks at the end of an import -/
def checkParity (expected : List Module) (channels : Table Text (Table Channel Target)) :
    Program Unit := do
  let projection ← project_v1 none
  if canonicalText projection ≠ canonicalText expected then
    conflict (text "DB projection differs from complete Registry v1 source")
  else do
    let targets ← channel_targets none
    if targets ≠ channels then
      conflict (text "DB channel pointers differ from Registry v1 index")
    else pure ()

/-- The transaction of an import -/
def importModules (modules expected : List Module) (channels : Table Text (Table Channel Target)) :
    Program Report := do
  Tx.acquire () (.index .shadow_import) .update
  ensurePublishers s modules
  ensureModules s modules
  let inserted ← insertModules s expected
  ensureChannels s channels.toList
  checkParity expected channels
  pure ⟨inserted, channels⟩

def import_registry (root : RegistryRoot) : Program Report := do
  let modules ← checked (load_registry s.lib root)
  let expected ← checked (modules.mapM canonical_module)
  let index ← checked (build_index s.lib modules)
  importModules s modules expected (channelsByModule index)

end

end PackageRegistry.Database
