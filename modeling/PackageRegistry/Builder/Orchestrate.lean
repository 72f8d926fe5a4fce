import PackageRegistry.Builder.Candidate
import PackageRegistry.Builder.Dependencies

/-! # The builder of record

`orchestrate` of `scripts/ocp_builder.py`: from a tag to the record of a candidate, through
every gate. What the tools, the host and other repositories answer is given.
-/

namespace PackageRegistry.Builder

/-- What the tools of the machine answer; `uv` and `node` without the words around the
    version. The host checkout stays at its commit during a run. -/
structure Machine where
  python : Text
  uv : Except Text Text
  node : Except Text Text
  host_python : Except Text Text
  pnpm : Except Text Text
  host_commit : Except Text Text
  repository_head : Except Text Text
  zlib : Text
  os : Text
  architecture : Text
  runner_image : Text
  lockfiles : Dict

/-- A build: the name and version of the one wheel, the frontend archive, and the digest of
    the bundle -/
structure Build where
  wheel : Building (Text × Text)
  frontend : Building Unit
  bundle : Building Sha256

/-- All that a run of the builder finds -/
structure Outside where
  config : Document
  environment_policy : Dict
  /-- `.github/ocp-host-verifier.json` -/
  contract : Document
  host_installed : Bool
  first_fetch : Except Text Checkout
  second_fetch : Except Text Checkout
  machine : Machine
  first_build : Build
  second_build : Build
  /-- The candidates of this version in the checkout, on `main` and on the review branch -/
  records : List Json
  registry : RegistryRoot
  /-- `run_host_verifier` -/
  host_verifier : Building Unit
  /-- What `run_host_lifecycle` does after it has chosen the dependencies -/
  host_lifecycle : List ReleaseCandidate → Building Unit

/-! ## Gates -/

def load_host_verifier_contract (contract : Document) : Building Text :=
  let failed : String → Building Text := fun problem => .error (.verification (text problem))
  match contract with
  | .ok (.obj fields) =>
      if hasKeys fields [text "OCP_HOST_VERIFIER_REPOSITORY", text "OCP_HOST_VERIFIER_REF"] = false
      then failed "host verifier config has unknown or missing fields"
      else
        match get fields "OCP_HOST_VERIFIER_REF" with
        | .str reference =>
            if COMMIT_RE reference = false then
              failed "host verifier ref must be a full lowercase commit SHA"
            else if Json.equal (get fields "OCP_HOST_VERIFIER_REPOSITORY")
                (.str (text "oklabflensburg/open-city-planner")) = false then
              failed "host verifier repository is not policy-approved"
            else .ok reference
        | _ => failed "host verifier ref must be a full lowercase commit SHA"
  | .ok _ => failed "host verifier config has unknown or missing fields"
  | .error exc => .error (.verification (text "invalid host verifier config: " ++ exc))

def validate_host_verifier_checkout (contract : Document) (host_head : Except Text Text)
    (host_installed : Bool) : Building Unit := do
  let reference ← load_host_verifier_contract contract
  if host_head.toOption ≠ some reference then
    .error (.verification (text "host verifier checkout does not match the pinned commit"))
  else if host_installed = false then
    .error (.verification (text "pinned host verifier environment is not installed"))
  else .ok ()

def builder_commit (repository_head : Except Text Text) : Text :=
  match repository_head with
  | .ok value => if COMMIT_RE value then value else text "unknown"
  | .error _ => text "unknown"

section

variable (lib : Library) (pkg : Packaging)

def checkTools (policy : Dict) : Dict → Building Unit
  | [] => .ok ()
  | (key, value) :: rest =>
      match policy.lookup key with
      | none => .error .other
      | some expected =>
          if Json.equal expected value = false then
            refuse (text "builder environment mismatch: " ++ key ++ text " " ++ str lib value ++
              text " != " ++ str lib expected)
          else checkTools policy rest

/-- What the environment records without comparing it to the policy -/
def observed (machine : Machine) (host_commit : Text) : Dict :=
  [(text "host_commit", .str host_commit),
    (text "builder_commit", .str (builder_commit machine.repository_head)),
    (text "bundle_format_version", .int 1),
    (text "zlib", .str machine.zlib),
    (text "os", .str machine.os),
    (text "architecture", .str machine.architecture),
    (text "runner_image", .str machine.runner_image),
    (text "lockfiles", .obj machine.lockfiles)]

/-- `versions` of `collect_environment` -/
def versions (machine : Machine) (uv node : Text) (pnpm : Option Text) : Dict :=
  [(text "python", .str machine.python), (text "uv", .str uv), (text "node", .str node)] ++
    optional (text "pnpm") pnpm

/-- Only a source with a frontend asks for `pnpm`. -/
def pnpmVersion (machine : Machine) (source : Checkout) : Building (Option Text) :=
  if source.has_frontend then (run machine.pnpm).map some else .ok none

def collect_environment (policy : Dict) (machine : Machine) (source : Checkout) :
    Building Dict := do
  let uv ← run machine.uv
  let node ← run machine.node
  let host_python ← run machine.host_python
  match policy.lookup (text "python") with
  | none => .error .other
  | some expected =>
      if Json.equal (.str host_python) expected = false then
        refuse (text "Host Python does not match builder environment")
      else do
        let pnpm ← pnpmVersion machine source
        checkTools lib policy (versions machine uv node pnpm)
        let host_commit ← run machine.host_commit
        .ok (update (update policy (versions machine uv node pnpm)) (observed machine host_commit))

/-- `build_backend`, `build_frontend` and `assemble_bundle`, with the digest of the bundle -/
def build_once (source : Checkout) (build : Build) (identity : SourceIdentity) :
    Building Sha256 := do
  let (name, version) ← build.wheel
  let manifest ← _mapping source.module_yaml "module.yaml"
  let backend ← fieldsOf (get manifest "backend")
  match backend.lookup (text "package") with
  | some (.str package) =>
      if pkg.canonicalize_name name ≠ pkg.canonicalize_name package then
        refuse (text "built wheel package does not match module manifest")
      else do
        let built ← parseVersion pkg version
        let tagged ← parseVersion pkg identity.version
        if built ≠ tagged then
          refuse (text "built wheel version does not match module manifest")
        else do
          build.frontend
          build.bundle
  | _ => .error .other

def checkRecord (identity : SourceIdentity) (digest : Text) (version : Json) (record : Json) :
    Building Unit := do
  let record ← fieldsOf record
  if (Json.equal (get record "module_id") (.str identity.policy.module_id) &&
      Json.equal (get record "version") (.str identity.version) &&
      Json.equal (get record "source_repository") (.str identity.policy.source_url)) = false then
    refuse (text "existing candidate has different immutable identity")
  else if (Json.equal (get record "source_commit") (.str identity.commit) &&
      Json.equal (get record "builder_version") version &&
      Json.equal (get record "bundle_sha256") (.str digest)) = false then
    refuse (text "existing candidate has different immutable provenance/digest")
  else .ok ()

def check_candidate_history (records : List Json) (identity : SourceIdentity) (digest : Text)
    (version : Json) : Building Unit :=
  records.forM (checkRecord identity digest version)

/-- The release that the registry has under the version -/
def registered (module : Module) (version : Text) : Option Release :=
  module.versions.find? fun release => release.version == version

def check_registry_immutability (root : RegistryRoot) (identity : SourceIdentity)
    (digest : Text) : Building Text := do
  let modules ← loadRegistry lib root
  match modules.find? (·.id == identity.policy.module_id) with
  | none => refuse (text "allowlisted module has no reviewed Registry identity")
  | some module =>
      match registered module identity.version with
      | some release =>
          if release.source_commit ≠ identity.commit ∨ release.artifact.sha256 ≠ digest then
            refuse (text "existing Registry version has different immutable provenance")
          else .ok (text "already-registered")
      | none => .ok (text "new")

def run_host_lifecycle (outside : Outside) (source : Checkout) : Building Unit := do
  let manifest ← _mapping source.module_yaml "module.yaml"
  let dependencies ← _dependency_candidates pkg lib outside.registry manifest
  outside.host_lifecycle dependencies

/-! ## The run -/

/-- `canonical_json(candidate)` is written as UTF-8. -/
def written (candidate : Dict) : Building Dict :=
  if Text.Encodable (Json.canonical_json (.obj candidate)) then .ok candidate
  else .error (.value (text "surrogates not allowed"))

/-- From the builds on: what is left is to check, and to record. -/
def record (outside : Outside) (identity : SourceIdentity) (source : Checkout)
    (environment : Dict) (builder_version : Json) (digest run_id planned_channel : Text) :
    Building Dict := do
  check_candidate_history outside.records identity digest builder_version
  outside.host_verifier
  run_host_lifecycle lib pkg outside source
  if [text "stable", text "beta", text "nightly"].contains planned_channel = false then
    refuse (text "planned channel must be stable, beta, or nightly")
  else do
    let candidate ← create_candidate source.module_yaml identity digest builder_version
      (builder_commit outside.machine.repository_head) run_id planned_channel
    let registry_status ← check_registry_immutability lib outside.registry identity digest
    written (set (text "build_environment") (.obj environment)
      (set (text "registry_status") (.str registry_status)
        (set (text "builder_commit") (get environment "builder_commit") candidate)))

def orchestrate (outside : Outside) (module_id tag run_id planned_channel : Text) :
    Building Dict := do
  let (builder_version, policies) ← load_policies outside.config
  match policies.lookup module_id with
  | none => refuse (text "unknown or non-allowlisted module \"" ++ module_id ++ text "\"")
  | some policy => do
      validate_host_verifier_checkout outside.contract outside.machine.host_commit
        outside.host_installed
      let (identity, source) ← prepare_checkout lib pkg policy tag outside.first_fetch
      let environment ← collect_environment lib outside.environment_policy outside.machine source
      let (second_identity, second_source) ← prepare_checkout lib pkg policy tag
        outside.second_fetch
      if identity ≠ second_identity then
        refuse (text "independent source resolutions disagree")
      else do
        let first ← build_once pkg source outside.first_build identity
        let second ← build_once pkg second_source outside.second_build identity
        if first.digest ≠ second.digest then
          refuse (text "non-reproducible builds: " ++ first.digest ++ text " != " ++ second.digest)
        else
          record lib pkg outside identity source environment builder_version first.digest run_id
            planned_channel

end

end PackageRegistry.Builder
