import PackageRegistry.Registry.Download
import PackageRegistry.Store.Publishers

/-! # Publishing the releases of a registry

`scripts/publish_artifacts.py`: one release after the other is looked up in the store, downloaded
if it is not there, checked and published. The network, the host verifier and all other publishers
are outside.
-/

namespace PackageRegistry.Store

open Runs Checks

/-! ## Exceptions -/

inductive Trouble where
  /-- `ArtifactStoreError` and its subclasses -/
  | store (e : StoreError)
  /-- `ArtifactPublishingError`, which is `ArtifactStoreError` -/
  | publishing (message : Text)
  /-- What the download, the host verifier and the registry raise -/
  | download (e : DownloadException)

def Stop.map {ε ε' : Type} (f : ε → ε') : Stop ε → Stop ε'
  | .raised e => .raised (f e)
  | .killed => .killed

def StoreError.message : StoreError → Text
  | .invalidArtifact m | .artifactConflict m | .artifactNotFound m | .artifactStoreError m => text m

def isOSError : DownloadException → Bool
  | .http_error _ | .timeout_error | .url_error _ | .os_error _ => true
  | _ => false

/-- The `except` clauses around the intake -/
def Trouble.intake : Trouble → Trouble
  | .download (.verification message) => .publishing message
  | .download e =>
      if isOSError e then .publishing (text "Artifact intake failed") else .download e
  | e => e

/-- `str(exc)` of the exceptions that `publish_all_from_registry` catches -/
def Trouble.shown (str : DownloadException → Text) : Trouble → Option Text
  | .store e => some e.message
  | .publishing message => some message
  | .download (.verification message) => some message
  | .download e => if isOSError e then some (str e) else none

/-- The `except` clause of `publish_all_from_registry` -/
def Trouble.named (str : DownloadException → Text) (candidate : ReleaseCandidate) (e : Trouble) :
    Trouble :=
  match e.shown str with
  | none => e
  | some message =>
      if Text.startsWith (candidate.identity ++ text ":") message then e
      else .publishing (candidate.identity ++ text ": " ++ message)

/-! ## What one publication meets with -/

/-- What keeps `verify` from reading a file -/
inductive Obstacle where
  | unsafe_directory
  | unsafe_file
  | irregular
  | os_error
  deriving DecidableEq

def Obstacle.error : Obstacle → StoreError
  | .unsafe_directory =>
      .invalidArtifact "Directory path must not contain symlinks or non-directories"
  | .unsafe_file => .invalidArtifact "File must be readable and must not be a symlink"
  | .irregular => .invalidArtifact "Artifact must be a regular file"
  | .os_error => .artifactStoreError "Unable to verify stored artifact"

structure Circumstances where
  /-- What happens in the store before it is looked at -/
  before : List Happening
  obstacle : Option Obstacle
  /-- `validate_checkout` -/
  checkout : Except DownloadException Unit
  /-- The private directory -/
  temporary : Except DownloadException Path
  /-- What the downloader returns, and what it has written -/
  download : Except DownloadException (Text × Bytes)
  /-- What the verifier leaves of the file -/
  verification : Except DownloadException Bytes
  /-- What happens in the store until `publish` has returned -/
  publishing : List Happening
  /-- What the removal of the private directory raises -/
  removal : Option DownloadException

structure PublishResult where
  candidate : ReleaseCandidate
  target_path : Path
  status : Status

/-- What a run has done -/
structure Desk where
  depot : Depot
  /-- The calls of the downloader -/
  downloads : List ReleaseCandidate
  /-- The calls of `store.publish` -/
  calls : List (Pid × ReleaseCandidate)

abbrev Published := Except (Stop Trouble) PublishResult

def callFor (candidate : ReleaseCandidate) (source : Path) : PublishCall where
  module_id := candidate.module_id
  version := candidate.version
  source := source
  expected_sha256 := candidate.expected_sha256

/-- `canonical_artifact_relative_path`, with what it raises -/
def relativeOf (candidate : ReleaseCandidate) : Checked Path := do
  let module_id ← _canonical_id (.str candidate.module_id) (text "module ID")
  let version ← PackageRegistry.validate_semver (.str candidate.version) (text "version")
  .ok (relativePath module_id version)

/-- The download and what is checked of it -/
def fetched (host_verifier : Bool) (circumstances : Circumstances) (candidate : ReleaseCandidate) :
    Except Trouble Bytes :=
  match circumstances.download with
  | .error e => .error (.download e)
  | .ok (actual_sha256, bytes) =>
      if actual_sha256 ≠ candidate.expected_sha256 then
        .error (.publishing (candidate.identity ++
          text ": downloaded SHA-256 does not match Registry metadata"))
      else if host_verifier then circumstances.verification.mapError .download
      else .ok bytes

/-- The end of the `with` block of the private directory -/
def leave (circumstances : Circumstances) : Published → Published
  | .error .killed => .error .killed
  | result =>
      match circumstances.removal with
      | some e => .error (.raised (.download e))
      | none => result

section

variable (store : FilesystemArtifactStore) (lib : Library) (host_verifier : Bool)
  (circumstances : Circumstances) (candidate : ReleaseCandidate) (desk : Desk)

def target : Path := store.root ++ relativePath candidate.module_id candidate.version

def Desk.waited : Desk :=
  { desk with depot := run (Depot.step store) desk.depot circumstances.before }

def Desk.publish (source : Path) (content : Bytes) : Published × Desk :=
  let (outcome, depot) := desk.depot.publish store (callFor candidate source) content
    circumstances.publishing
  ((outcome.mapError (Stop.map .store)).map fun publication =>
      ⟨candidate, target store candidate, publication.status⟩,
    { desk with depot, calls := desk.calls ++ [(desk.depot.next, candidate)] })

def inspect : Except StoreError StoredArtifact :=
  match circumstances.obstacle with
  | some obstacle => .error obstacle.error
  | none => verify store desk.depot.state.fs (callFor candidate (target store candidate))

def partialPath (directory : Path) : Path :=
  directory ++ [text "." ++ artifactName candidate.module_id candidate.version ++
    text ".download.partial"]

/-- The `try` block in the private directory -/
def attempt (directory : Path) : Published × Desk :=
  let desk := { desk with downloads := desk.downloads ++ [candidate] }
  match fetched host_verifier circumstances candidate with
  | .error e => (.error (.raised e), desk)
  | .ok bytes => desk.publish store circumstances candidate (partialPath candidate directory) bytes

def takeIn (directory : Path) : Published × Desk :=
  let (result, desk) := attempt store host_verifier circumstances candidate desk directory
  (leave circumstances (result.mapError (Stop.map Trouble.intake)), desk)

/-- The artifact is not in the store. -/
def acquire (source : SplitResult) : Published × Desk :=
  if source.hostname lib = some CANONICAL_REGISTRY_HOST then
    (.error (.raised (.publishing (candidate.identity ++
      text ": canonical mirror metadata references a missing local artifact"))), desk)
  else
    match (if host_verifier then circumstances.checkout else .ok ()) with
    | .error e => (.error (.raised (.download e)), desk)
    | .ok () =>
        match circumstances.temporary with
        | .error e => (.error (.raised (.download e)), desk)
        | .ok directory => takeIn store host_verifier circumstances candidate desk directory

/-- The store has been looked at. -/
def proceed (source : SplitResult) : Except StoreError StoredArtifact → Published × Desk
  | .error (.artifactNotFound _) =>
      acquire store lib host_verifier circumstances candidate desk source
  | .error e => (.error (.raised (.store e)), desk)
  | .ok _ =>
      desk.publish store circumstances candidate (target store candidate)
        ((desk.depot.state.fs.read (target store candidate)).getD [])

def publish_candidate : Published × Desk :=
  match validate_candidate_url lib candidate with
  | .error e => (.error (.raised (.download e)), desk)
  | .ok source =>
      match relativeOf candidate with
      | .error e => (.error (.raised (.download (.registry e))), desk)
      | .ok _ =>
          let desk := desk.waited store circumstances
          proceed store lib host_verifier circumstances candidate desk source
            (inspect store circumstances candidate desk)

end

/-! ## All releases -/

section

variable (lib : Library)

def _candidate_from_release (module : Module) (release : Release) : Downloads ReleaseCandidate := do
  let candidate := ReleaseCandidate.of module release
  let _ ← validate_candidate_url lib candidate
  .ok candidate

/-- The releases of a registry, module by module -/
def allReleases (modules : List Module) : List (Module × Release) :=
  modules.flatMap fun module => module.versions.map (Prod.mk module)

def select_all_releases (root : RegistryRoot) : Downloads (List ReleaseCandidate) := do
  let modules ← (load_registry lib root).mapError .registry
  let candidates ← (allReleases modules).mapM fun release =>
    _candidate_from_release lib release.1 release.2
  (checkVersions (candidates.map (·.version))).mapError .registry
  .ok (sortBy candidateKey candidates)

variable (store : FilesystemArtifactStore) (host_verifier : Bool) (str : DownloadException → Text)
  (circumstances : Nat → Circumstances)

/-- A run of `publish_all_from_registry`: the results so far, and the exception if there is one -/
structure BulkRun where
  results : List PublishResult
  stop : Option (Stop Trouble)
  desk : Desk

/-- The loop over the candidates -/
def publishEach : Nat → List ReleaseCandidate → Desk → BulkRun
  | _, [], desk => ⟨[], none, desk⟩
  | position, candidate :: rest, desk =>
      match publish_candidate store lib host_verifier (circumstances position) candidate desk with
      | (.error stop, desk) => ⟨[], some (stop.map (Trouble.named str candidate)), desk⟩
      | (.ok result, desk) =>
          let others := publishEach (position + 1) rest desk
          { others with results := result :: others.results }

def publish_all_from_registry (root : RegistryRoot) (depot : Depot) : BulkRun :=
  match select_all_releases lib root with
  | .error e => ⟨[], some (.raised (.download e)), ⟨depot, [], []⟩⟩
  | .ok candidates =>
      publishEach lib store host_verifier str circumstances 0 candidates ⟨depot, [], []⟩

end

end PackageRegistry.Store
