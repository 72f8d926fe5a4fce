import PackageRegistry.Registry.Index

/-! # Changes between two snapshots

`validate_immutability` of `scripts/registry.py`, and the gate of
`scripts/verify_artifacts.py` that new releases pass. The download and the host's
verifier come from outside.
-/

namespace PackageRegistry

/-- Python takes `1` and `1.0` for equal, and so are two releases that differ in this alone. -/
def Release.value (release : Release) : Release :=
  { release with bundle_format_version := .int }

/-- `==` on the dictionaries of two releases -/
def Release.equal (a b : Release) : Bool := a.value == b.value

def Release.withUrl (release : Release) (url : Text) : Release :=
  { release with artifact := { release.artifact with url := url } }

def expectedMirror (module_id version : Text) : Text :=
  text "https://" ++ CANONICAL_REGISTRY_HOST ++ registryPath module_id version

section

variable (lib : Library)

/-- Copying the proposed release through `json` changes nothing in it. -/
def _is_mirror_promotion (module_id : Text) (proposed published : Release) : Checked Bool :=
  match urlsplit lib published.artifact.url with
  | none => .error .value_error
  | some published_url =>
      if published_url.hostname lib ≠ some (text "github.com") ∨
          proposed.artifact.url ≠ expectedMirror module_id published.version then
        .ok false
      else .ok ((proposed.withUrl published.artifact.url).equal published)

end

/-- Each protected field with its message for a module, the existing and the proposed value -/
def PROTECTED_MODULE_FIELDS : List ((Module → Text) × (Text → Text → Text → Text)) :=
  [(fun module => module.classification.name, fun module_id existing proposed =>
      module_id ++ text ": classification cannot change after publication (" ++ existing ++
        text " → " ++ proposed ++ text ")"),
    (fun module => module.source_repository, fun module_id existing proposed =>
      module_id ++ text ": published source_repository is immutable; existing \"" ++ existing ++
        text "\", proposed \"" ++ proposed ++ text "\""),
    (fun module => module.license, fun module_id existing proposed =>
      module_id ++ text ": published license is immutable in registry schema v1; existing \"" ++
        existing ++ text "\", proposed \"" ++ proposed ++ text "\"")]

def _validate_module_provenance_immutability (current published : Module) : Checked Unit :=
  if current.publisher.id ≠ published.publisher.id then
    .error (.validation (published.id ++ text ": published publisher.id is immutable; existing \"" ++
      published.publisher.id ++ text "\", proposed \"" ++ current.publisher.id ++ text "\""))
  else
    PROTECTED_MODULE_FIELDS.forM fun (field, error_template) =>
      if field current = field published then .ok ()
      else .error (.validation (error_template published.id (field published) (field current)))

section

variable (lib : Library)

/-- What one published release asks of the current releases -/
def keepsRelease (module_id : Text) (current_releases : Table Text Release)
    (base_release : Release) : Checked Unit :=
  let identity := module_id ++ text "@" ++ base_release.version
  match current_releases[base_release.version]? with
  | none => .error (.validation (identity ++ text ": published release cannot be removed"))
  | some release =>
      if release.equal base_release then .ok ()
      else do
        if ← _is_mirror_promotion lib module_id release base_release then .ok ()
        else
          .error (.validation (identity ++
            text ": published release metadata is immutable; publish a new version"))

/-- What one published module asks of the current modules -/
def keepsModule (current_by_id : Table Text Module) (base_module : Module) : Checked Unit :=
  match current_by_id[base_module.id]? with
  | none =>
      .error (.validation (base_module.id ++ text ": published module metadata cannot be removed"))
  | some current => do
      _validate_module_provenance_immutability current base_module
      let current_releases := Table.ofList (current.versions.map fun r => (r.version, r))
      base_module.versions.forM (keepsRelease lib base_module.id current_releases)

def validate_immutability (current_modules base_modules : List Module) : Checked Unit :=
  base_modules.forM (keepsModule lib (Table.ofList (current_modules.map fun m => (m.id, m))))

end

/-! ## The gate for new releases -/

structure ReleaseCandidate where
  module_id : Text
  version : Text
  channel : Channel
  artifact_url : Text
  expected_sha256 : Text
  classification : Classification
  deriving DecidableEq

def ReleaseCandidate.identity (candidate : ReleaseCandidate) : Text :=
  candidate.module_id ++ text "@" ++ candidate.version

def ReleaseCandidate.of (module : Module) (release : Release) : ReleaseCandidate where
  module_id := module.id
  version := release.version
  channel := release.channel
  artifact_url := release.artifact.url
  expected_sha256 := release.artifact.sha256
  classification := module.classification

/-- The identities of all releases of a snapshot -/
def identities (modules : List Module) : List (Text × Text) :=
  modules.flatMap fun module => module.versions.map fun release => (module.id, release.version)

def candidateKey (candidate : ReleaseCandidate) : Text ×ₗ WithBot SemverKey :=
  toLex (candidate.module_id, semver_key candidate.version)

def newCandidates (current_modules : List Module) (published : List (Text × Text)) :
    List ReleaseCandidate :=
  current_modules.flatMap fun module =>
    (module.versions.filter fun release => !published.contains (module.id, release.version)).map
      (ReleaseCandidate.of module)

def find_new_releases (current_modules base_modules : List Module) :
    Checked (List ReleaseCandidate) := do
  let candidates := newCandidates current_modules (identities base_modules)
  checkVersions (candidates.map (·.version))
  .ok (sortBy candidateKey candidates)

/-- `ArtifactVerificationError`, or another exception of what comes from outside -/
structure VerificationError where
  message : Text
  deriving DecidableEq

/-- The download of a candidate returns the SHA-256 of the bytes that arrived. -/
structure HostVerifier where
  validate_checkout : Except VerificationError Unit
  downloader : ReleaseCandidate → Except VerificationError Text
  verifier : ReleaseCandidate → Except VerificationError Unit

def verifyCandidate (host : HostVerifier) (candidate : ReleaseCandidate) :
    Except VerificationError Unit := do
  let actual_sha256 ← host.downloader candidate
  if actual_sha256 ≠ candidate.expected_sha256 then
    .error ⟨candidate.identity ++ text ": SHA-256 does not match registry metadata"⟩
  else host.verifier candidate

def verify_release_candidates (host : HostVerifier) (candidates : List ReleaseCandidate) :
    Except VerificationError Unit :=
  if candidates.isEmpty then .ok ()
  else do
    host.validate_checkout
    candidates.forM (verifyCandidate host)

end PackageRegistry
