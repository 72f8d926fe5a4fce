import PackageRegistry.Lib.StableSort
import PackageRegistry.Registry.Validate

/-! # Source trees, sorted modules and the index

`load_registry`, `canonical_module` and `build_index` of `scripts/registry.py`.
-/

namespace PackageRegistry

/-! ## Loading -/

/-- A source tree: the texts of `registry.json` and of the files in `modules/`. -/
structure RegistryRoot where
  path : Text
  envelope : Option Text
  modules : Table Text Text

section

variable (lib : Library)

def decode_json (t : Text) (origin : Text) : Checked Dict :=
  match Json.loads t with
  | none => .error (.validation (origin ++ text ": invalid JSON: " ++ lib.jsonError t))
  | some (.obj fields) => .ok fields
  | some _ => invalid origin ": root must be a JSON object"

/-- `Path.stem` of a name that ends in `.json` -/
def stem (name : Text) : Text :=
  if name.length ≤ 5 then name else name.take (name.length - 5)

def loadModules (directory : Text) : List Text → List (Text × Text) → Checked (List Module)
  | _, [] => .ok []
  | seen, (name, content) :: rest => do
      let path := directory ++ text "/" ++ name
      let value ← decode_json lib content path
      let module ← validate_module lib value path none
      if seen.contains module.id then
        .error (.validation (path ++ text ": duplicate module ID \"" ++ module.id ++ text "\""))
      else if stem name ≠ module.id then
        .error (.validation (path ++ text ": file name must be \"" ++ module.id ++
          text ".json\", not \"" ++ name ++ text "\""))
      else do
        let others ← loadModules directory (module.id :: seen) rest
        .ok (module :: others)

/-- `glob("*.json")` -/
def RegistryRoot.files (root : RegistryRoot) : List (Text × Text) :=
  root.modules.toList.filter fun file => Text.endsWith (text ".json") file.1

def load_registry (root : RegistryRoot) : Checked (List Module) :=
  let envelope_path := root.path ++ text "/registry.json"
  match root.envelope with
  | none => .error (.validation (text "missing registry source envelope: " ++ envelope_path))
  | some content => do
      let envelope ← decode_json lib content envelope_path
      let keys := [text "schema_version"]
      _exact_keys envelope keys keys envelope_path
      let _ ← _schema_version lib (required envelope "schema_version") envelope_path
      let modules ← loadModules lib (root.path ++ text "/modules") [] root.files
      .ok (sortBy (fun module => module.id) modules)

end

/-! ## Order of versions -/

/-- The key of a release. A version that is no SemVer raises before it is compared. -/
def versionKey (release : Release) : WithBot SemverKey := semver_key release.version

/-- `semver_key` of every version that is about to be compared -/
def checkVersions (versions : List Text) : Checked Unit :=
  match versions.find? fun version => (semver_key version).isNone with
  | some version => .error (.validation (text "invalid SemVer: " ++ version))
  | none => .ok ()

def canonical_module (module : Module) : Checked Module := do
  checkVersions (module.versions.map (·.version))
  .ok { module with versions := sortBy versionKey module.versions }

/-! ## The index -/

instance : Ord Channel := ⟨compareOn Channel.name⟩

theorem Channel.name_injective : Function.Injective Channel.name := by
  rintro (_ | _ | _) (_ | _ | _) same <;> first | rfl | exact absurd same (by decide)

instance transOrdChannel : Std.TransOrd Channel :=
  inferInstanceAs (Std.TransCmp (compareOn Channel.name))

instance lawfulEqOrdChannel : Std.LawfulEqOrd Channel where
  eq_of_compare same := Channel.name_injective (Std.LawfulEqOrd.eq_of_compare same)

/-- What a channel offers -/
structure Target where
  version : Text
  sha256 : Text
  deriving DecidableEq

structure IndexEntry where
  id : Text
  name : Text
  publisher : Publisher
  classification : Classification
  channels : Table Channel Target

structure Index where
  modules : List IndexEntry

def Release.target (release : Release) : Target where
  version := release.version
  sha256 := release.artifact.sha256

def onChannel (versions : List Release) (channel : Channel) : List Release :=
  versions.filter fun release => release.channel == channel

def addTarget (versions : List Release) (channels : Table Channel Target) (channel : Channel) :
    Checked (Table Channel Target) := do
  let releases := onChannel versions channel
  checkVersions (releases.map (·.version))
  match firstMax versionKey releases with
  | some current => .ok (channels.insert channel current.target)
  | none => .ok channels

/-- The channels of a module: on each the newest release, the first one listed if several
    have its precedence -/
def channelsOf (versions : List Release) : Checked (Table Channel Target) :=
  CHANNELS.foldlM (addTarget versions) ∅

def metadataPath (module_id : Text) : Text :=
  text "/modules/" ++ module_id ++ text ".json"

def indexEntry (module : Module) : Checked IndexEntry := do
  let channels ← channelsOf module.versions
  .ok { id := module.id
        name := module.name
        publisher := module.publisher
        classification := module.classification
        channels }

def Target.toDict (target : Target) : Dict :=
  [(text "sha256", .str target.sha256), (text "version", .str target.version)]

def IndexEntry.toDict (entry : IndexEntry) : Dict :=
  [(text "channels", .obj (entry.channels.toList.map fun c => (c.1.name, .obj c.2.toDict))),
    (text "classification", .str entry.classification.name),
    (text "id", .str entry.id),
    (text "metadata", .str (metadataPath entry.id)),
    (text "name", .str entry.name),
    (text "publisher", .obj entry.publisher.toDict)]

def Index.toDict (index : Index) : Dict :=
  [(text "modules", .arr (index.modules.map fun entry => .obj entry.toDict)),
    (text "schema_version", .int 1)]

/-! ### `schema/registry-v1.schema.json` -/

def channelReleaseSchema : Schema :=
  objectOf [text "version", text "sha256"]
    [(text "version", string fun _ => true), (text "sha256", string (searched SHA256_RE))]

def isMetadataPath (t : Text) : Bool :=
  Text.startsWith (text "/modules/") t && Text.endsWith (text ".json") t &&
    MODULE_ID_RE ((t.drop 9).take (t.length - 14))

def indexSchema : Schema :=
  objectOf [text "schema_version", text "modules"]
    [(text "schema_version", constOne),
      (text "modules", arrayOf 0 (objectOf
        [text "id", text "name", text "publisher", text "classification", text "channels",
          text "metadata"]
        [(text "id", string (searched MODULE_ID_RE)),
          (text "name", string fun s => 1 ≤ s.length),
          (text "publisher", objectOf [text "id", text "name"]
            [(text "id", string fun _ => true), (text "name", string fun _ => true)]),
          (text "classification", enum [text "first-party", text "reviewed-community"]),
          (text "channels", objectOf [] (CHANNELS.map fun c => (c.name, channelReleaseSchema))),
          (text "metadata", string (searched isMetadataPath))]))]

def build_index (lib : Library) (modules : List Module) : Checked Index := do
  let entries ← (sortBy (fun module => module.id) modules).mapM indexEntry
  let index : Index := ⟨entries⟩
  _validate_json_schema lib indexSchema (.obj index.toDict) (text "index")
  .ok index

end PackageRegistry
