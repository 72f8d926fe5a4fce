import PackageRegistry.Registry.Module
import PackageRegistry.Registry.Semver
import PackageRegistry.Registry.Url

/-! # `validate_module`

Every check of `scripts/registry.py` on what `json.loads` has read, in the order of the
source and with its messages. A value that passes is returned in the shape it is
known to have.
-/

namespace PackageRegistry

inductive RegistryError where
  /-- `RegistryValidationError` -/
  | validation (message : Text)
  /-- A `ValueError` from `urlsplit` or `int` -/
  | value_error
  deriving DecidableEq

abbrev Checked := Except RegistryError

/-- `raise RegistryValidationError` -/
def invalid {α : Type} (origin : Text) (problem : String) : Checked α :=
  .error (.validation (origin ++ text problem))

def joined (names : List Text) : Text :=
  List.intercalate (text ", ") names

def MODULE_KEYS : List Text :=
  [text "schema_version", text "id", text "name", text "description", text "publisher",
    text "classification", text "source_repository", text "license", text "homepage",
    text "documentation_url", text "versions"]

def REQUIRED_MODULE_KEYS : List Text :=
  [text "schema_version", text "id", text "name", text "publisher", text "classification",
    text "source_repository", text "license", text "versions"]

def RELEASE_KEYS : List Text :=
  [text "version", text "channel", text "artifact", text "bundle_format_version",
    text "source_commit", text "source_tag", text "requires"]

def REQUIRED_RELEASE_KEYS : List Text :=
  RELEASE_KEYS.filter (· != text "source_tag")

def sortedTexts (names : List Text) : List Text :=
  names.insertionSort (· ≤ ·)

def _exact_keys (value : Dict) (allowed required : List Text) (origin : Text) : Checked Unit :=
  let unknown := sortedTexts ((value.map (·.1)).filter fun key => !allowed.contains key)
  let missing := sortedTexts (required.filter fun key => !(value.map (·.1)).contains key)
  if !unknown.isEmpty then .error (.validation (origin ++ text ": unknown fields: " ++ joined unknown))
  else if !missing.isEmpty then
    .error (.validation (origin ++ text ": missing fields: " ++ joined missing))
  else .ok ()

/-- `value[key]` after `_exact_keys` has seen the key -/
def required (value : Dict) (key : String) : Json :=
  (value.lookup (text key)).getD .null

def isOne : Json → Option One
  | .int 1 => some .int
  | .float d => if d = .one then some .float else none
  | _ => none

section

variable (lib : Library)

def _schema_version (value : Json) (origin : Text) : Checked One :=
  match isOne value with
  | some one => .ok one
  | none => .error (.validation (origin ++ text ": unsupported schema_version " ++ lib.repr value))

def _canonical_id (value : Json) (origin : Text) : Checked Text :=
  match value with
  | .str id =>
      if 63 < id.length ∨ MODULE_ID_RE id = false then
        invalid origin ": must be a lowercase kebab-case module ID"
      else .ok id
  | _ => invalid origin ": must be a lowercase kebab-case module ID"

def _semver (value : Json) (origin : Text) : Checked Text :=
  match value with
  | .str version =>
      if (SEMVER_RE version).isSome then .ok version
      else invalid origin ": must be a complete SemVer version"
  | _ => invalid origin ": must be a complete SemVer version"

def validate_semver (value : Json) (origin : Text) : Checked Text :=
  _semver value origin

def _nonempty_string (value : Json) (origin : Text) (maximum : Nat) : Checked Text :=
  match value with
  | .str s =>
      if s = [] ∨ s ≠ Text.strip s ∨ maximum < s.length then
        invalid origin ": must be a non-empty trimmed string"
      else .ok s
  | _ => invalid origin ": must be a non-empty trimmed string"

/-- A check of a field that may be absent -/
def whenPresent (value : Dict) (key : String) (check : Json → Checked Text) :
    Checked (Option Text) :=
  match value.lookup (text key) with
  | some v => (check v).map some
  | none => .ok none

def _optional_string (value : Dict) (key : String) (origin : Text) (maximum : Nat) :
    Checked (Option Text) :=
  whenPresent value key fun v => _nonempty_string v (origin ++ text "." ++ text key) maximum

/-! ## URLs -/

def httpsAllowed (value : Text) (parsed : SplitResult) : Bool :=
  parsed.scheme == text "https" && (parsed.hostname lib).any (fun name => !name.isEmpty) && parsed.username.isNone &&
    parsed.password.isNone && !parsed.invalid_port && parsed.query.isEmpty &&
    parsed.fragment.isEmpty && !value.contains (.ofChar '\\') &&
    value.all fun c => !c.isSpace && 32 ≤ c.val

def _https_url (value : Json) (origin : Text) : Checked (Text × SplitResult) :=
  match value with
  | .str url =>
      if url = [] then invalid origin ": must be a non-empty HTTPS URL"
      else
        match urlsplit lib url with
        | none => .error .value_error
        | some parsed =>
            if httpsAllowed lib url parsed then .ok (url, parsed)
            else
              invalid origin ": must be HTTPS without credentials, query parameters, or fragments"
  | _ => invalid origin ": must be a non-empty HTTPS URL"

def _optional_https_url (value : Dict) (key : String) (origin : Text) : Checked (Option Text) :=
  whenPresent value key fun v => (_https_url lib v (origin ++ text "." ++ text key)).map (·.1)

/-- `/modules/<id>/<version>/<id>-<version>.ocp` -/
def registryPath (module_id version : Text) : Text :=
  text "/modules/" ++ module_id ++ text "/" ++ version ++ text "/" ++ artifactName module_id version

/-- The tag of a path `/<owner>/<repository>/releases/download/<tag>/<file>.ocp` -/
def githubRelease (path : Text) : Option Text :=
  match Text.splitOn (.ofChar '/') path with
  | [top, owner, repository, releases, download, tag, file] =>
      if top.isEmpty && !owner.isEmpty && !repository.isEmpty && releases == text "releases" &&
          download == text "download" && !tag.isEmpty && Text.endsWith (text ".ocp") file &&
          5 ≤ file.length then
        some tag
      else none
  | _ => none

def validate_artifact_url (url : Json) (classification : Classification) (module_id version : Text)
    (origin : Text) : Checked Text := do
  let (url, parsed) ← _https_url lib url origin
  let path := unquote parsed.path
  if Text.endsWith (text ".ocp") path = false then
    invalid origin ": artifact path must end in .ocp"
  else
    let hosted := parsed.hostname lib = some CANONICAL_REGISTRY_HOST ∧
      path = registryPath module_id version
    let github_release := parsed.hostname lib = some (text "github.com") ∧
      (githubRelease path).isSome
    if (githubRelease path).any (fun tag => tag != version && tag != text "v" ++ version) then
      invalid origin ": GitHub release tag must bind the exact module version"
    else if ¬hosted ∧ ¬github_release then
      invalid origin
        ": stable hosting policy permits the registry module path or GitHub Releases"
    else if classification = .firstParty ∧ github_release ∧
        Text.startsWith (text "/oklabflensburg/") path = false then
      invalid origin ": first-party GitHub artifacts must be under oklabflensburg"
    else .ok url

/-! ## Ranges -/

/-- `(.+)$` at the end of a clause: `$` also matches before a final newline. -/
def restOfClause (t : Text) : Option Text :=
  let body := if Text.endsWith (text "\n") t then t.dropLast else t
  if body.isEmpty || body.contains (.ofChar '\n') then none else some body

/-- `^(>=|<=|==|!=|>|<)(.+)$` -/
def matchClause (clause : Text) : Option Text :=
  [text ">=", text "<=", text "==", text "!=", text ">", text "<"].findSome? fun operator =>
    if Text.startsWith operator clause then restOfClause (clause.drop operator.length) else none

def checkClauses (origin : Text) : List Text → Checked Unit
  | [] => .ok ()
  | clause :: rest =>
      match matchClause clause with
      | none => invalid origin ": each clause requires an explicit operator"
      | some version => do
          let _ ← _semver (.str version) origin
          checkClauses origin rest

def _version_range (value : Json) (origin : Text) : Checked Text :=
  match value with
  | .str s =>
      if s = [] ∨ s ≠ Text.strip s then invalid origin ": must be a canonical SemVer range"
      else do
        checkClauses origin (Text.splitOn (.ofChar ',') s)
        .ok s
  | _ => invalid origin ": must be a canonical SemVer range"

/-! ## Parts of a module -/

def _validate_publisher (value : Json) (origin : Text) : Checked Publisher :=
  match value with
  | .obj fields => do
      let keys := [text "id", text "name"]
      _exact_keys fields keys keys origin
      let id ← _canonical_id (required fields "id") (origin ++ text ".id")
      let name ← _nonempty_string (required fields "name") (origin ++ text ".name") 120
      .ok { id, name }
  | _ => invalid origin ": must be an object"

def checkDependencies (origin module_id : Text) : Dict → Checked (List (Text × Text))
  | [] => .ok []
  | (dependency, constraint) :: rest => do
      let _ ← _canonical_id (.str dependency) (origin ++ text ".modules key")
      if dependency = module_id then
        invalid origin ".modules: a module cannot depend on itself"
      else do
        let specifier ← _version_range constraint (origin ++ text ".modules." ++ dependency)
        let others ← checkDependencies origin module_id rest
        .ok ((dependency, specifier) :: others)

def _validate_requires (value : Json) (origin module_id : Text) : Checked Requires :=
  match value with
  | .obj fields => do
      let keys := [text "host", text "sdk", text "modules"]
      _exact_keys fields keys keys origin
      let host ← _version_range (required fields "host") (origin ++ text ".host")
      let sdk ← _version_range (required fields "sdk") (origin ++ text ".sdk")
      match required fields "modules" with
      | .obj modules => do
          let modules ← checkDependencies origin module_id modules
          .ok { host, sdk, modules := Table.ofList modules }
      | _ => invalid origin ".modules: must be an object"
  | _ => invalid origin ": must be an object"

def channelOf (value : Json) (origin : Text) : Checked Channel :=
  match value with
  | .str s =>
      match CHANNELS.find? (·.name == s) with
      | some channel => .ok channel
      | none => invalid origin ".channel: must be one of stable, beta, nightly"
  | _ => invalid origin ".channel: must be one of stable, beta, nightly"

def classificationOf (value : Json) (origin : Text) : Checked Classification :=
  match value with
  | .str s =>
      match [Classification.firstParty, .reviewedCommunity].find? (·.name == s) with
      | some classification => .ok classification
      | none => invalid origin ".classification: must be one of first-party, reviewed-community"
  | _ => invalid origin ".classification: must be one of first-party, reviewed-community"

def hexString (pattern : Text → Bool) (value : Json) (origin : Text) (problem : String) :
    Checked Text :=
  match value with
  | .str s => if pattern s then .ok s else invalid origin problem
  | _ => invalid origin problem

/-- `value != BUNDLE_FORMAT_VERSION` takes `True` for one; the schema refuses it later. -/
def bundleFormat (value : Json) (origin : Text) : Checked One :=
  match value with
  | .bool true => .ok .int
  | _ =>
      match isOne value with
      | some one => .ok one
      | none => invalid origin ".bundle_format_version: only version 1 is supported"

def _validate_release (value : Json) (origin module_id : Text) (classification : Classification) :
    Checked Release :=
  match value with
  | .obj fields => do
      _exact_keys fields RELEASE_KEYS REQUIRED_RELEASE_KEYS origin
      let version ← _semver (required fields "version") (origin ++ text ".version")
      let channel ← channelOf (required fields "channel") origin
      if channel = .stable ∧ ((SEMVER_RE version).bind (·.prerelease)).isSome then
        invalid origin ": stable releases cannot use prerelease versions"
      else
        match required fields "artifact" with
        | .obj artifact => do
            let keys := [text "url", text "sha256"]
            _exact_keys artifact keys keys (origin ++ text ".artifact")
            let url ← validate_artifact_url lib (required artifact "url") classification module_id
              version (origin ++ text ".artifact.url")
            let sha256 ← hexString SHA256_RE (required artifact "sha256") origin
              ".artifact.sha256: must be 64 lowercase hex chars"
            let bundle_format_version ← bundleFormat (required fields "bundle_format_version") origin
            let source_commit ← hexString COMMIT_RE (required fields "source_commit") origin
              ".source_commit: must be 40 or 64 lowercase hex chars"
            let source_tag ← _optional_string fields "source_tag" origin 255
            let requires ← _validate_requires (required fields "requires")
              (origin ++ text ".requires") module_id
            .ok { version, channel, artifact := { url, sha256 }, bundle_format_version,
                  source_commit, source_tag, requires }
        | _ => invalid origin ".artifact: must be an object"
  | _ => invalid origin ": must be an object"

def releaseOrigin (origin : Text) (position : Nat) : Text :=
  origin ++ text ".versions[" ++ Text.ofNat position ++ text "]"

def checkReleases (origin module_id : Text) (classification : Classification) :
    Nat → List Text → List Json → Checked (List Release)
  | _, _, [] => .ok []
  | position, seen_versions, value :: rest => do
      let release_origin := releaseOrigin origin position
      let release ← _validate_release lib value release_origin module_id classification
      if seen_versions.contains release.version then
        .error (.validation (release_origin ++ text ": duplicate version \"" ++ release.version ++
          text "\""))
      else do
        let others ← checkReleases origin module_id classification (position + 1)
          (release.version :: seen_versions) rest
        .ok (release :: others)

end

/-! ## `schema/module-v1.schema.json` -/

abbrev Schema := Json → Bool

/-- A pattern between `^` and `$`, as `re.search` finds it: a final newline is allowed. -/
def searched (pattern : Text → Bool) (t : Text) : Bool :=
  pattern t || (Text.endsWith (text "\n") t && pattern t.dropLast)

def string (check : Text → Bool) : Schema
  | .str s => check s
  | _ => false

def stringOf (minLength maxLength : Nat) : Schema :=
  string fun s => minLength ≤ s.length && s.length ≤ maxLength

def enum (names : List Text) : Schema :=
  string fun s => names.contains s

def constOne : Schema := fun v => (isOne v).isSome

def objectOf (required : List Text) (properties : List (Text × Schema)) : Schema
  | .obj fields =>
      required.all (fun key => (fields.map (·.1)).contains key) &&
        fields.all fun f => (properties.lookup f.1).any fun check => check f.2
  | _ => false

/-- `additionalProperties` and `propertyNames` of an open mapping -/
def mappingOf (names : Text → Bool) (values : Schema) : Schema
  | .obj fields => fields.all fun f => names f.1 && values f.2
  | _ => false

def arrayOf (minItems : Nat) (items : Schema) : Schema
  | .arr values => minItems ≤ values.length && values.all items
  | _ => false

def idSchema : Schema :=
  string fun s => 1 ≤ s.length && s.length ≤ 63 && searched MODULE_ID_RE s

def httpsUrlSchema : Schema := string (Text.startsWith (text "https://"))

def isRangeChar (c : CodePoint) : Bool :=
  c.isDigit || c.isLower || c.isUpper || c == .ofChar '.' || c == .ofChar '+' || c == .ofChar '-'

def isRangePattern (t : Text) : Bool :=
  (Text.splitOn (.ofChar ',') t).all fun clause =>
    [text ">=", text "<=", text "==", text "!=", text ">", text "<"].any fun operator =>
      Text.startsWith operator clause && operator.length < clause.length &&
        (clause.drop operator.length).all isRangeChar

def versionRangeSchema : Schema := string (searched isRangePattern)

def publisherSchema : Schema :=
  objectOf [text "id", text "name"]
    [(text "id", idSchema), (text "name", stringOf 1 120)]

def releaseSchema : Schema :=
  objectOf [text "version", text "channel", text "artifact", text "bundle_format_version",
      text "source_commit", text "requires"]
    [(text "version", string (searched fun s => (SEMVER_RE s).isSome)),
      (text "channel", enum (CHANNELS.map Channel.name)),
      (text "artifact", objectOf [text "url", text "sha256"]
        [(text "url", httpsUrlSchema), (text "sha256", string (searched SHA256_RE))]),
      (text "bundle_format_version", constOne),
      (text "source_commit", string (searched COMMIT_RE)),
      (text "source_tag", stringOf 1 255),
      (text "requires", objectOf [text "host", text "sdk", text "modules"]
        [(text "host", versionRangeSchema), (text "sdk", versionRangeSchema),
          (text "modules", mappingOf (searched MODULE_ID_RE) versionRangeSchema)])]

def moduleSchema : Schema :=
  objectOf REQUIRED_MODULE_KEYS
    [(text "schema_version", constOne),
      (text "id", idSchema),
      (text "name", stringOf 1 120),
      (text "description", stringOf 1 1000),
      (text "publisher", publisherSchema),
      (text "classification", enum [text "first-party", text "reviewed-community"]),
      (text "source_repository", httpsUrlSchema),
      (text "license", stringOf 1 255),
      (text "homepage", httpsUrlSchema),
      (text "documentation_url", httpsUrlSchema),
      (text "versions", arrayOf 1 releaseSchema)]

section

variable (lib : Library)

def _validate_json_schema (schema : Schema) (value : Json) (origin : Text) : Checked Unit :=
  if schema value then .ok ()
  else
    .error (.validation
      (origin ++ text ": JSON Schema validation failed: " ++ lib.schemaError value))

/-- `first-party` sources lie in the organisation's account. -/
def firstPartySource (source : SplitResult) : Bool :=
  source.hostname lib == some (text "github.com") &&
    Text.startsWith (text "/oklabflensburg/") (unquote source.path)

def validate_module (module : Dict) (origin : Text) (expected_id : Option Text) :
    Checked Module := do
  _exact_keys module MODULE_KEYS REQUIRED_MODULE_KEYS origin
  let schema_version ← _schema_version lib (required module "schema_version") origin
  let id ← _canonical_id (required module "id") (origin ++ text ".id")
  if expected_id.any (· != id) then
    .error (.validation (origin ++ text ": file name must be \"" ++ id ++ text ".json\", not \"" ++
      expected_id.getD [] ++ text ".json\""))
  else do
    let name ← _nonempty_string (required module "name") (origin ++ text ".name") 120
    let description ← _optional_string module "description" origin 1000
    let homepage ← _optional_https_url lib module "homepage" origin
    let documentation_url ← _optional_https_url lib module "documentation_url" origin
    let publisher ← _validate_publisher (required module "publisher") (origin ++ text ".publisher")
    let classification ← classificationOf (required module "classification") origin
    let (source_repository, source) ← _https_url lib (required module "source_repository")
      (origin ++ text ".source_repository")
    if classification = .firstParty ∧ firstPartySource lib source = false then
      invalid origin ".source_repository: first-party source must be in github.com/oklabflensburg"
    else do
      let license ← _nonempty_string (required module "license") (origin ++ text ".license") 255
      match required module "versions" with
      | .arr (first :: others) => do
          let versions ← checkReleases lib origin id classification 0 [] (first :: others)
          _validate_json_schema lib moduleSchema (.obj module) origin
          .ok { schema_version, id, name, description, publisher, classification,
                source_repository, license, homepage, documentation_url, versions }
      | _ => invalid origin ".versions: must be a non-empty array"

end

end PackageRegistry
