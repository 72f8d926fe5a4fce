import PackageRegistry.Lib.JsonEquality
import PackageRegistry.Lib.Packaging
import PackageRegistry.Registry.Index
import PackageRegistry.Builder.Tag

/-! # Policies and sources of the builder

`load_policies`, `parse_tag`, `prepare_checkout` and `validate_source` of
`scripts/ocp_builder.py`. What git, the file system and the YAML and TOML readers answer
is given; their values are taken to be those of JSON.
-/

namespace PackageRegistry.Builder

/-- What the builder raises -/
inductive Failure where
  /-- `BuilderError` -/
  | builder (message : Text)
  /-- `ArtifactVerificationError` -/
  | verification (message : Text)
  | registry (error : RegistryError)
  /-- `ValueError` and what is derived from it, such as `InvalidVersion` -/
  | value (message : Text)
  /-- `TypeError`, `KeyError` or `AttributeError` -/
  | other

abbrev Building := Except Failure

/-- `raise BuilderError` -/
def refuse {α : Type} (message : Text) : Building α := .error (.builder message)

/-- `run`, which turns a failed command into a `BuilderError` -/
def run {α : Type} : Except Text α → Building α
  | .ok answer => .ok answer
  | .error detail => refuse (text "command failed" ++ detail)

/-- `dict.get`, with `None` for what is missing -/
def get (value : Dict) (key : String) : Json :=
  (value.lookup (text key)).getD .null

/-- `set(value) == names` -/
def hasKeys (value : Dict) (names : List Text) : Bool :=
  value.all (fun f => names.contains f.1) && names.all fun name => (value.map (·.1)).contains name

/-- `str` -/
def str (lib : Library) : Json → Text
  | .str s => s
  | v => lib.repr v

/-! ## Policies -/

structure ModulePolicy where
  module_id : Text
  repository : Text
  classification : Text
  deriving DecidableEq

def ModulePolicy.source_url (policy : ModulePolicy) : Text :=
  text "https://github.com/" ++ policy.repository

/-- The members of `[a-z0-9-]` -/
def isRepositoryChar (c : CodePoint) : Bool :=
  c.isLower || c.isDigit || c == .ofChar '-'

/-- `oklabflensburg/[a-z0-9-]+` -/
def isFirstParty (repository : Text) : Bool :=
  Text.startsWith (text "oklabflensburg/") repository &&
    !(repository.drop 15).isEmpty && (repository.drop 15).all isRepositoryChar

/-- `[A-Za-z0-9_.]+:[A-Za-z0-9_]+` -/
def isContract (contract : Text) : Bool :=
  let word := fun (c : CodePoint) => c.isUpper || c.isLower || c.isDigit || c == .ofChar '_'
  match Text.partition (.ofChar ':') contract with
  | (path, some name) =>
      !path.isEmpty && path.all (fun c => word c || c == .ofChar '.') && !name.isEmpty &&
        name.all word
  | (_, none) => false

/-- `isinstance(value, int) and value >= 1` -/
def isPositive : Json → Bool
  | .int i => 1 ≤ i
  | .bool value => value
  | _ => false

def checkService (module_id : Text) (service : Json) : Building Unit :=
  let invalid : Building Unit := refuse (text "invalid service contract for " ++ module_id)
  match service with
  | .obj fields =>
      if hasKeys fields [text "id", text "version", text "contract"] = false then invalid
      else if isPositive (get fields "version") = false then invalid
      else
        match get fields "id", get fields "contract" with
        | .str id, contract =>
            if (!id.isEmpty && id.all isArtifactChar) = false then invalid
            else
              match contract with
              | .str contract => if isContract contract then .ok () else invalid
              | _ => .error .other
        | _, _ => .error .other
  | _ => invalid

/-- What a `for` loop over the value goes through: items, keys or characters -/
def iterate : Json → Option (List Json)
  | .arr items => some items
  | .obj fields => some (fields.map fun f => .str f.1)
  | .str s => some (s.map fun c => .str [c])
  | _ => none

def policyOf (module_id : Text) (item : Json) : Building ModulePolicy :=
  match item with
  | .obj fields =>
      if hasKeys fields [text "repository", text "classification", text "publisher",
          text "license", text "host_contract"] = false then
        refuse (text "invalid policy for " ++ module_id)
      else
        match get fields "classification", get fields "repository" with
        | .str classification, .str repository =>
            if classification ≠ text "first-party" then
              refuse (module_id ++ text ": only first-party repositories are supported")
            else if isFirstParty repository = false then
              refuse (module_id ++ text ": repository is outside the first-party boundary")
            else
              match get fields "host_contract" with
              | .obj contract =>
                  if hasKeys contract [text "services"] = false then
                    refuse (text "invalid host contract for " ++ module_id)
                  else
                    match iterate (get contract "services") with
                    | none => .error .other
                    | some services => do
                        services.forM (checkService module_id)
                        .ok ⟨module_id, repository, classification⟩
              | _ => refuse (text "invalid host contract for " ++ module_id)
        | _, _ => refuse (module_id ++ text ": only first-party repositories are supported")
  | _ => refuse (text "invalid policy for " ++ module_id)

def loadPolicyItems : Dict → Building (List (Text × ModulePolicy))
  | [] => .ok []
  | (module_id, item) :: rest => do
      let policy ← policyOf module_id item
      let others ← loadPolicyItems rest
      .ok ((module_id, policy) :: others)

/-- `load_policies` on what `config/first-party-modules.yaml` holds, with the builder's version -/
def load_policies (config : Except Text Json) : Building (Json × List (Text × ModulePolicy)) :=
  match config with
  | .error exc => refuse (text "invalid first-party configuration: " ++ exc)
  | .ok (.obj value) =>
      if hasKeys value [text "builder_version", text "modules"] = false then
        refuse (text "first-party configuration has unknown or missing fields")
      else
        match get value "modules" with
        | .obj modules =>
            if Json.equal (get value "builder_version") (.int 1) = false then
              refuse (text "only ocp-builder version 1 is supported")
            else do
              let policies ← loadPolicyItems modules
              .ok (get value "builder_version", policies)
        | _ => refuse (text "only ocp-builder version 1 is supported")
  | .ok _ => refuse (text "first-party configuration has unknown or missing fields")

/-! ## Sources -/

structure SourceIdentity where
  policy : ModulePolicy
  tag : Text
  version : Text
  commit : Text
  epoch : Int
  deriving DecidableEq

/-- A file that is read and decoded, or the message of the exception -/
abbrev Document := Except Text Json

/-- What git answers about a tag, and the files of the checkout that are read -/
structure Checkout where
  commit : Text
  head : Text
  epoch : Int
  module_yaml : Document
  /-- The table `project` of `backend/pyproject.toml` -/
  project : Document
  package_json : Document
  module_json : Document
  /-- `frontend/package.json` exists -/
  has_frontend : Bool

def parse_tag (tag : Text) : Building Text :=
  if TAG_RE tag then .ok tag.tail
  else refuse (text "source tag must be an exact v-prefixed SemVer")

def _mapping (document : Document) (name : String) : Building Dict :=
  match document with
  | .error exc => refuse (text "invalid " ++ text name ++ text ": " ++ exc)
  | .ok (.obj value) => .ok value
  | .ok _ => refuse (text name ++ text " must contain a mapping")

/-- `value.get` raises an `AttributeError` on anything but a dictionary. -/
def fieldsOf : Json → Building Dict
  | .obj fields => .ok fields
  | _ => .error .other

section

variable (lib : Library) (pkg : Packaging)

def parseVersion (t : Text) : Building pkg.Version :=
  match pkg.version t with
  | some version => .ok version
  | none => .error (.value (text "Invalid version: " ++ t))

def frontendDocument : Document → Building Json
  | .error exc => refuse (text "invalid frontend metadata: " ++ exc)
  | .ok value => .ok value

def validateFrontend (source : Checkout) (identity : SourceIdentity) (frontend : Json) :
    Building Unit := do
  let package ← frontendDocument source.package_json
  let module ← frontendDocument source.module_json
  let module ← fieldsOf module
  if Json.equal (get module "id") (.str identity.policy.module_id) = false ∨
      str lib (get module "version") ≠ identity.version then
    refuse (text "frontend module identity does not match module manifest")
  else do
    let package ← fieldsOf package
    let frontend ← fieldsOf frontend
    if Json.equal (get package "name") (get frontend "package") = false then
      refuse (text "frontend package name does not match module manifest")
    else if str lib (get package "version") ≠ identity.version then
      refuse (text "frontend package version does not match module manifest")
    else .ok ()

def validate_source (source : Checkout) (identity : SourceIdentity) : Building Unit := do
  let manifest ← _mapping source.module_yaml "module.yaml"
  if Json.equal (get manifest "id") (.str identity.policy.module_id) = false then
    refuse (text "module.yaml.id does not match requested module")
  else if str lib (get manifest "version") ≠ identity.version then
    refuse (text "module.yaml.version does not match source tag")
  else
    match get manifest "backend" with
    | .obj declared =>
        match source.project with
        | .error exc => refuse (text "invalid backend pyproject.toml: " ++ exc)
        | .ok project => do
            let backend ← fieldsOf project
            let built ← parseVersion pkg (str lib (get backend "version"))
            let tagged ← parseVersion pkg identity.version
            if built ≠ tagged then
              refuse (text "backend project version does not match module manifest")
            else if pkg.canonicalize_name (str lib (get backend "name")) ≠
                pkg.canonicalize_name (str lib (get declared "package")) then
              refuse (text "backend project name does not match module manifest")
            else
              match get manifest "frontend" with
              | .null => .ok ()
              | frontend => validateFrontend lib source identity frontend
    | _ => refuse (text "module.yaml must declare a backend")

def prepare_checkout (policy : ModulePolicy) (tag : Text) (fetched : Except Text Checkout) :
    Building (SourceIdentity × Checkout) := do
  let version ← parse_tag tag
  let source ← run fetched
  if COMMIT_RE source.commit = false then
    refuse (text "source tag did not resolve to a full commit")
  else if source.head ≠ source.commit then
    refuse (text "checkout does not match the commit resolved from the tag")
  else do
    let identity : SourceIdentity := ⟨policy, tag, version, source.commit, source.epoch⟩
    validate_source lib pkg source identity
    .ok (identity, source)

end

end PackageRegistry.Builder
