import PackageRegistry.Lib.Runs
import PackageRegistry.Registry.Semver
import PackageRegistry.Store.FileSystem

/-! # `FilesystemArtifactStore.publish`, one system call at a time

A call is a program counter over the shared file system. Every step of the code
that reaches the file system is one step here, so other calls can come between
any two of them. A step may also raise, and a call may stop for good at any point.
-/

namespace PackageRegistry.Store

inductive StoreError where
  | invalidArtifact (message : String)
  | artifactConflict (message : String)
  | artifactNotFound (message : String)
  | artifactStoreError (message : String)
  deriving DecidableEq

structure StoredArtifact where
  module_id : Text
  version : Text
  digest_algorithm : Text
  digest : Text
  byte_size : Nat
  storage_locator : Text
  public_url : Text
  deriving DecidableEq

/-- `STATUS_PUBLISHED` and `STATUS_ALREADY_PRESENT` -/
inductive Status where
  | published
  | alreadyPresent
  deriving DecidableEq

structure Publication where
  artifact : StoredArtifact
  status : Status
  deriving DecidableEq

/-! ## Identities and paths -/

/-- `_canonical_id` without its message. -/
def validate_module_id (module_id : Text) : Bool :=
  module_id.length ≤ 63 && MODULE_ID_RE module_id

def validate_semver (version : Text) : Bool :=
  (SEMVER_RE version).isSome

/-- `modules/<id>/<version>` -/
def relativeParent (module_id version : Text) : Path :=
  [text "modules", module_id, version]

def relativePath (module_id version : Text) : Path :=
  relativeParent module_id version ++ [artifactName module_id version]

/-- `canonical_artifact_relative_path`, where the code raises on invalid identities. -/
def canonical_artifact_relative_path (module_id version : Text) : Option Path :=
  if validate_module_id module_id && validate_semver version then
    some (relativePath module_id version)
  else none

/-- `Path.as_posix` of a relative path. -/
def asPosix (path : Path) : Text :=
  List.intercalate (text "/") path

def canonical_public_artifact_url (module_id version : Text) : Text :=
  text "https://" ++ CANONICAL_REGISTRY_HOST ++ text "/" ++ asPosix (relativePath module_id version)

def _identity (module_id version digest : Text) : Except StoreError Path :=
  match canonical_artifact_relative_path module_id version with
  | none => .error (.invalidArtifact "Invalid module ID or SemVer")
  | some relative =>
      if SHA256_RE digest then .ok relative
      else .error (.invalidArtifact "Expected SHA-256 must be 64 lowercase hex characters")

/-- `_safe_absolute` of a path that is already absolute. -/
def _safe_absolute (path : Path) : Except StoreError Path :=
  if path.any fun part => part == text ".." || part.any fun c => c.val == 0 || c == .ofChar '\\' then
    .error (.invalidArtifact "Path contains forbidden components")
  else .ok path

/-- A store that its constructor accepts: its root is not `/`, has no forbidden
    component and lies outside application releases. The hash is a parameter; all
    that is known of it is the shape of a hexadecimal digest. -/
structure FilesystemArtifactStore where
  root : Path
  /-- `hashlib.sha256(...).hexdigest()` -/
  sha256 : Bytes → Text
  hexdigest : ∀ bytes, SHA256_RE (sha256 bytes) = true
  notTop : root ≠ []
  safe : _safe_absolute root = .ok root
  outside : text "releases" ∉ root ∧ text "current" ∉ root

def _metadata (module_id version digest : Text) (size : Nat) : StoredArtifact where
  module_id := module_id
  version := version
  digest_algorithm := text "sha256"
  digest := digest
  byte_size := size
  storage_locator := asPosix (relativePath module_id version)
  public_url := canonical_public_artifact_url module_id version

/-- The arguments of one call of `publish`. -/
structure PublishCall where
  module_id : Text
  version : Text
  source : Path
  expected_sha256 : Text

section

variable (store : FilesystemArtifactStore) (call : PublishCall)

def parentPath : Path := store.root ++ relativeParent call.module_id call.version

def finalPath : Path := store.root ++ relativePath call.module_id call.version

def stagingPath : Path := store.root ++ [text ".staging"]

end

/-! ## What a call can do -/

/-- `1024 * 1024` -/
def chunkSize : Nat := 1048576

/-- One `read` at an offset; empty only at the end of the file. -/
def chunk (content : Bytes) (offset : Nat) : Bytes :=
  (content.drop offset).take chunkSize

/-- The two directories that `_directory` opens with `create=True`. -/
inductive Goal where
  | parent
  | staging
  deriving DecidableEq

/-- Position of `_directory` in its loop: `here` is open, `name` comes next. -/
structure Walk where
  goal : Goal
  here : Path
  name : Text
  rest : List Text
  deriving DecidableEq

/-- What the environment makes a step raise. Checks on the layout of the store
    that the model has no data for (links, ownership, devices) count as such. -/
inductive Fault where
  | fileNotFound
  | osError
  | unsafePath
  | notPrivate
  | otherDevice
  deriving DecidableEq

/-- The exception `publish` ends with. -/
def Fault.error : Fault → StoreError
  | .fileNotFound => .invalidArtifact "Source or storage directory is missing"
  | .osError => .artifactStoreError "Artifact storage operation failed; verify before retry"
  | .unsafePath => .invalidArtifact "Directory path must not contain symlinks or non-directories"
  | .notPrivate => .invalidArtifact "Staging must be private to the trusted publisher (0700)"
  | .otherDevice => .artifactStoreError "Staging and final path must share a filesystem"

abbrev Result := Except StoreError Publication

/-- Where a call stands: the next operation, with the descriptors and digests it holds. -/
inductive Pc where
  | start
  | hashSource (acc : Bytes)
  | walk (goal : Goal) (here : Path) (todo : List Text)
  | openChild (w : Walk) (created : Bool)
  | fchmodChild (w : Walk)
  | fsyncChild (w : Walk)
  | fsyncHere (w : Walk)
  | openExisting
  | readExisting (fd : InodeId) (acc : Bytes)
  | reopenExisting (artifact : StoredArtifact)
  | fsyncExisting (fd : InodeId) (artifact : StoredArtifact)
  | fsyncExistingParent (artifact : StoredArtifact)
  | checkStaging
  | openPartial
  | copy (tmp : InodeId)
  | fchmodPartial (tmp : InodeId)
  | fsyncPartial (tmp : InodeId)
  | hashPartial (tmp : InodeId) (acc : Bytes)
  | checkParent (tmp : InodeId)
  | link (tmp : InodeId)
  | openFinal (status : Status)
  | readFinal (status : Status) (fd : InodeId) (acc : Bytes)
  | fsyncFinalParent (publication : Publication)
  | unlinkPartial (result : Result)
  | fsyncStaging (result : Result)
  | returned (result : Result)
  | removalFailed (error : StoreError)
  | crashed

/-- The end of `_directory`: what the caller does with the open directory. -/
def Goal.next : Goal → Pc
  | .parent => .openExisting
  | .staging => .checkStaging

/-- The comparison at the end of `_verify_at`. -/
def verified (store : FilesystemArtifactStore) (call : PublishCall) (acc : Bytes) :
    Except StoreError StoredArtifact :=
  if store.sha256 acc = call.expected_sha256 then
    .ok (_metadata call.module_id call.version call.expected_sha256 acc.length)
  else .error (.artifactConflict "Existing artifact SHA-256 mismatch; refusing overwrite")

/-- One step of a call that raises nothing by itself. -/
def advance (store : FilesystemArtifactStore) (call : PublishCall) (pid : Pid) (source : Bytes)
    (fs : FileSystem) : Pc → FileSystem × Pc
  | .start =>
      match _identity call.module_id call.version call.expected_sha256 with
      | .error e => (fs, .returned (.error e))
      | .ok _ =>
          match _safe_absolute call.source with
          | .error e => (fs, .returned (.error e))
          | .ok _ => (fs, .hashSource [])
  | .hashSource acc =>
      match chunk source acc.length with
      | [] =>
          if store.sha256 acc = call.expected_sha256 then
            (fs, .walk .parent [] (parentPath store call))
          else
            (fs, .returned (.error
              (.invalidArtifact "Source SHA-256 does not match expected digest")))
      | bytes => (fs, .hashSource (acc ++ bytes))
  -- `_directory(path, create=True)`
  | .walk goal _ [] => (fs, goal.next)
  | .walk goal here (name :: rest) =>
      let (fs', created) := fs.mkdir (here ++ [name])
      (fs', .openChild ⟨goal, here, name, rest⟩ created)
  | .openChild w created =>
      if created then (fs, .fchmodChild w) else (fs, .walk w.goal (w.here ++ [w.name]) w.rest)
  | .fchmodChild w => (fs, .fsyncChild w)
  | .fsyncChild w => (fs.fsyncDirectory (w.here ++ [w.name]), .fsyncHere w)
  | .fsyncHere w => (fs.fsyncDirectory w.here, .walk w.goal (w.here ++ [w.name]) w.rest)
  -- an artifact that is already there
  | .openExisting =>
      match fs.file (finalPath store call) with
      | none => (fs, .walk .staging [] (stagingPath store))
      | some fd => (fs, .readExisting fd [])
  | .readExisting fd acc =>
      match chunk (fs.content fd) acc.length with
      | [] =>
          match verified store call acc with
          | .ok artifact => (fs, .reopenExisting artifact)
          | .error e => (fs, .returned (.error e))
      | bytes => (fs, .readExisting fd (acc ++ bytes))
  | .reopenExisting artifact =>
      match fs.file (finalPath store call) with
      | none => (fs, .returned (.error Fault.fileNotFound.error))
      | some fd => (fs, .fsyncExisting fd artifact)
  | .fsyncExisting fd artifact => (fs.fsyncFile fd, .fsyncExistingParent artifact)
  | .fsyncExistingParent artifact =>
      (fs.fsyncDirectory (parentPath store call), .returned (.ok ⟨artifact, .alreadyPresent⟩))
  -- a private copy, synced and rehashed
  | .checkStaging => (fs, .openPartial)
  | .openPartial => (fs.createStaged pid, .copy fs.fresh)
  | .copy tmp =>
      match chunk source (fs.content tmp).length with
      | [] => (fs, .fchmodPartial tmp)
      | bytes => (fs.append tmp bytes, .copy tmp)
  | .fchmodPartial tmp => (fs, .fsyncPartial tmp)
  | .fsyncPartial tmp => (fs.fsyncFile tmp, .hashPartial tmp [])
  | .hashPartial tmp acc =>
      match chunk (fs.content tmp) acc.length with
      | [] =>
          if store.sha256 acc = call.expected_sha256 then (fs, .checkParent tmp)
          else
            (fs, .unlinkPartial (.error (.invalidArtifact "Copied artifact SHA-256 mismatch")))
      | bytes => (fs, .hashPartial tmp (acc ++ bytes))
  | .checkParent tmp => (fs, .link tmp)
  -- `os.link` never overwrites; `FileExistsError` means that another call was first
  | .link tmp =>
      match fs.file (finalPath store call) with
      | none => (fs.link tmp (finalPath store call), .openFinal .published)
      | some _ => (fs, .openFinal .alreadyPresent)
  | .openFinal status =>
      match fs.file (finalPath store call) with
      | none => (fs, .unlinkPartial (.error Fault.fileNotFound.error))
      | some fd => (fs, .readFinal status fd [])
  | .readFinal status fd acc =>
      match chunk (fs.content fd) acc.length with
      | [] =>
          match verified store call acc with
          | .ok artifact => (fs, .fsyncFinalParent ⟨artifact, status⟩)
          | .error e => (fs, .unlinkPartial (.error e))
      | bytes => (fs, .readFinal status fd (acc ++ bytes))
  | .fsyncFinalParent publication =>
      (fs.fsyncDirectory (parentPath store call), .unlinkPartial (.ok publication))
  -- `finally`
  | .unlinkPartial result => (fs.unlinkStaged pid, .fsyncStaging result)
  | .fsyncStaging result => (fs.fsyncDirectory (stagingPath store), .returned result)
  | .returned result => (fs, .returned result)
  | .removalFailed error => (fs, .removalFailed error)
  | .crashed => (fs, .crashed)

/-- Where a call goes when its next operation raises. -/
def raised (store : FilesystemArtifactStore) (fault : Fault) : Pc → Pc
  -- `except FileNotFoundError: pass` around the first look at the final file
  | .openExisting =>
      if fault = .fileNotFound then .walk .staging [] (stagingPath store)
      else .returned (.error fault.error)
  | .copy _ | .fchmodPartial _ | .fsyncPartial _ | .hashPartial _ _ | .checkParent _ | .link _
  | .openFinal _ | .readFinal _ _ _ | .fsyncFinalParent _ => .unlinkPartial (.error fault.error)
  | .unlinkPartial _ => .removalFailed fault.error
  | .returned result => .returned result
  | .removalFailed error => .removalFailed error
  | .crashed => .crashed
  | _ => .returned (.error fault.error)

/-! ## The store under any number of calls -/

structure State where
  fs : FileSystem
  pc : Pid → Pc
  /-- What the file that a call has opened as its source holds now. -/
  source : Pid → Bytes
  /-- History only: the call that linked a path. -/
  linker : Path → Option Pid

inductive Event where
  | step (pid : Pid)
  | fail (pid : Pid) (fault : Fault)
  | crash (pid : Pid)
  | rewriteSource (pid : Pid) (content : Bytes)

/-- Before any call has done anything. -/
def State.initial (fs : FileSystem) (source : Pid → Bytes) : State where
  fs := fs
  pc := fun _ => .start
  source := source
  linker := fun _ => none

/-- The link that the next step of a call makes, if it makes one. -/
def links (store : FilesystemArtifactStore) (call : PublishCall) (fs : FileSystem) : Pc → Bool
  | .link _ => (fs.file (finalPath store call)).isNone
  | _ => false

def State.step (store : FilesystemArtifactStore) (call : Pid → PublishCall) (s : State) :
    Event → State
  | .step pid =>
      let (fs, pc) := advance store (call pid) pid (s.source pid) s.fs (s.pc pid)
      { s with
          fs := fs
          pc := Function.update s.pc pid pc
          linker :=
            if links store (call pid) s.fs (s.pc pid) then
              Function.update s.linker (finalPath store (call pid)) (some pid)
            else s.linker }
  | .fail pid fault => { s with pc := Function.update s.pc pid (raised store fault (s.pc pid)) }
  | .crash pid =>
      { s with pc := Function.update s.pc pid (match s.pc pid with
          | .returned result => .returned result
          | _ => .crashed) }
  | .rewriteSource pid content => { s with source := Function.update s.source pid content }

/-- `FilesystemArtifactStore.verify` on a store that no fault hides. -/
def verify (store : FilesystemArtifactStore) (fs : FileSystem) (call : PublishCall) :
    Except StoreError StoredArtifact :=
  match _identity call.module_id call.version call.expected_sha256 with
  | .error e => .error e
  | .ok _ =>
      match fs.read (finalPath store call) with
      | none => .error (.artifactNotFound "Artifact is not stored")
      | some bytes => verified store call bytes

/-! A small store with two different files, for runs on fixed inputs. -/

/-- A hash that tells the empty file from all others. -/
def emptiness (bytes : Bytes) : Text :=
  List.replicate 64 (.ofChar (if bytes.isEmpty then '0' else '1'))

def smallStore : FilesystemArtifactStore where
  root := [text "srv"]
  sha256 := emptiness
  hexdigest bytes := by
    cases bytes with
    | nil => decide
    | cons => exact (by decide : SHA256_RE (List.replicate 64 (.ofChar '1')) = true)
  notTop := by decide
  safe := by decide
  outside := by decide

def smallSource (pid : Pid) : Bytes :=
  if pid = 1 then [] else [7]

def smallCall (pid : Pid) : PublishCall where
  module_id := text "roads"
  version := text "1.0.0"
  source := [text "tmp", text "roads.ocp"]
  expected_sha256 := emptiness (smallSource pid)

end PackageRegistry.Store
