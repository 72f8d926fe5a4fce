import PackageRegistry.Lib.Utf8
import PackageRegistry.Builder.Source

/-! # Candidates

The record of a candidate: `create_candidate` of `scripts/ocp_builder.py`, and
`validate_candidate` and `store_candidate` of `scripts/registry_candidate.py`.
-/

namespace PackageRegistry.Builder

/-- `value[key] = item` -/
def set (key : Text) (item : Json) : Dict → Dict
  | [] => [(key, item)]
  | (key', item') :: rest =>
      if key' = key then (key, item) :: rest else (key', item') :: set key item rest

/-- `{**value, **items}` -/
def update (value items : Dict) : Dict :=
  items.foldl (fun value item => set item.1 item.2 value) value

/-- The hexadecimal digest of a file -/
structure Sha256 where
  digest : Text
  wellFormed : SHA256_RE digest = true

/-! ## Creating -/

/-- `create_candidate`, with the commit that `builder_commit()` returns -/
def create_candidate (module_yaml : Document) (identity : SourceIdentity) (digest : Text)
    (builder_version : Json) (builder_commit run_id planned_channel : Text) : Building Dict := do
  let manifest ← _mapping module_yaml "module.yaml"
  match manifest.lookup (text "requires") with
  | none => .error .other
  | some requires =>
      .ok [(text "schema_version", .int 1),
        (text "module_id", .str identity.policy.module_id),
        (text "version", .str identity.version),
        (text "classification", .str identity.policy.classification),
        (text "source_repository", .str identity.policy.source_url),
        (text "source_tag", .str identity.tag),
        (text "source_commit", .str identity.commit),
        (text "builder_version", builder_version),
        (text "builder_commit", .str builder_commit),
        (text "bundle_format_version", .int 1),
        (text "bundle_sha256", .str digest),
        (text "artifact_candidate", .str (text "github-actions://run/" ++ run_id ++ text "/" ++
          (identity.policy.module_id ++ text "-" ++ identity.version))),
        (text "reproducible", .bool true),
        (text "host_contract", .str (text "passed")),
        (text "planned_channel", .str planned_channel),
        (text "requires", requires)]

/-! ## Validating -/

def REQUIRED : List Text :=
  [text "schema_version", text "module_id", text "version", text "classification",
    text "source_repository", text "source_tag", text "source_commit", text "builder_version",
    text "builder_commit", text "bundle_format_version", text "bundle_sha256",
    text "artifact_candidate", text "reproducible", text "host_contract", text "planned_channel",
    text "requires", text "registry_status"]

/-- `raise ValueError` unless the check holds -/
def demand (holds : Bool) (problem : String) : Building Unit :=
  if holds then .ok () else .error (.value (text problem))

/-- `pattern.fullmatch(value)`, a `TypeError` on anything but a string -/
def fullmatch (pattern : Text → Bool) (value : Json) (problem : String) : Building Unit :=
  match value with
  | .str s => demand (pattern s) problem
  | _ => .error .other

/-- `value in names`, a `TypeError` on what has no hash -/
def oneOf (names : List Text) (value : Json) (problem : String) : Building Unit :=
  match value with
  | .str s => demand (names.contains s) problem
  | .arr _ | .obj _ => .error .other
  | _ => demand false problem

/-- `policies.get(module_id)` -/
def allowlisted (policies : List (Text × ModulePolicy)) (module_id : Json) :
    Building ModulePolicy :=
  match module_id with
  | .str module_id =>
      match policies.lookup module_id with
      | some policy => .ok policy
      | none => .error (.value (text "candidate module is not allowlisted"))
  | .arr _ | .obj _ => .error .other
  | _ => .error (.value (text "candidate module is not allowlisted"))

/-- `f"v{value}"` -/
def tagOf (lib : Library) (version : Json) : Text := text "v" ++ str lib version

/-- The environment agrees with `config/builder-environment.json`. -/
def meetsPolicy (policy environment : Dict) : Bool :=
  policy.all fun item => Json.equal ((environment.lookup item.1).getD .null) item.2

def validateEnvironment (lib : Library) (environment_policy value : Dict) : Building Unit :=
  match value.lookup (text "build_environment") with
  | none => .ok ()
  | some (.obj environment) => do
      demand (meetsPolicy environment_policy environment)
        "candidate build environment violates builder policy"
      demand (Json.equal (get environment "builder_commit") (get value "builder_commit"))
        "candidate builder commit mismatch"
      demand (COMMIT_RE (str lib ((environment.lookup (text "host_commit")).getD (.str []))))
        "candidate host commit invalid"
  | some _ => demand false "candidate build environment violates builder policy"

/-- `isinstance(value, dict)` -/
def isObject : Json → Bool
  | .obj _ => true
  | _ => false

/-- `value is True` -/
def isTrue : Json → Bool
  | .bool value => value
  | _ => false

def validate_candidate (lib : Library) (config : Document) (environment_policy : Dict)
    (value : Json) : Building Dict :=
  match value with
  | .obj value => do
      demand (hasKeys (value.filter fun f => f.1 != text "build_environment") REQUIRED)
        "candidate has unknown or missing fields"
      let (_, policies) ← load_policies config
      let policy ← allowlisted policies (get value "module_id")
      demand (Json.equal (get value "source_repository") (.str policy.source_url))
        "candidate source repository does not match allowlist"
      demand (Json.equal (get value "classification") (.str (text "first-party")))
        "candidate classification is not first-party"
      demand (Json.equal (get value "schema_version") (.int 1) &&
        Json.equal (get value "builder_version") (.int 1))
        "unsupported candidate or builder version"
      demand (Json.equal (get value "bundle_format_version") (.int 1)) "unsupported bundle format"
      fullmatch (fun version => (SEMVER_RE version).isSome) (get value "version")
        "invalid candidate version"
      demand (Json.equal (get value "source_tag") (.str (tagOf lib (get value "version"))))
        "candidate tag/version mismatch"
      fullmatch COMMIT_RE (get value "source_commit") "invalid source commit"
      fullmatch (fun commit => commit == text "unknown" || COMMIT_RE commit)
        (get value "builder_commit") "invalid builder commit"
      fullmatch SHA256_RE (get value "bundle_sha256") "invalid bundle digest"
      demand (isTrue (get value "reproducible") &&
        Json.equal (get value "host_contract") (.str (text "passed")))
        "candidate did not pass all gates"
      oneOf [text "new", text "already-registered"] (get value "registry_status")
        "invalid registry status"
      oneOf [text "stable", text "beta", text "nightly"] (get value "planned_channel")
        "invalid planned channel"
      demand (isObject (get value "requires")) "candidate requires must be an object"
      validateEnvironment lib environment_policy value
      fullmatch ARTIFACT_RE (get value "artifact_candidate")
        "candidate artifact is not a GitHub Actions run artifact"
      .ok value
  | _ => .error (.value (text "candidate has unknown or missing fields"))

/-! ## Storing -/

/-- What is at a path: a directory, or a file with its text, if that can be decoded -/
inductive Entry where
  | directory
  | file (content : Option Text)

/-- The directory of candidates, with the names below it -/
abbrev Tree := List Text → Option Entry

def put (path : List Text) (entry : Entry) (tree : Tree) : Tree :=
  fun other => if other = path then some entry else tree other

/-- `json.loads(path.read_text(encoding="utf-8"))` -/
def parsed (lib : Library) (content : Option Text) : Building Json :=
  match content with
  | none => .error (.value (text "'utf-8' codec can't decode"))
  | some t =>
      match Json.loads t with
      | some value => .ok value
      | none => .error (.value (lib.jsonError t))

/-- `REQUIRED - {"artifact_candidate", "builder_commit"}` -/
def comparable_fields : List Text :=
  REQUIRED.filter fun field =>
    field != text "artifact_candidate" && field != text "builder_commit"

/-- The branch of `store_candidate` for a destination that exists -/
def compare_candidate (existing : Json) (value : Dict) : Building Unit := do
  let existing ← fieldsOf existing
  demand (comparable_fields.all fun field =>
      Json.equal ((existing.lookup field).getD .null) ((value.lookup field).getD .null))
    "candidate version already exists with different provenance"

/-- `mkdir(parents=True)` for the directory of a version -/
def makeDirectories (module_id version : Text) (tree : Tree) : Building Tree :=
  match tree [module_id, version], tree [module_id], tree [] with
  | some _, _, _ => .error .other
  | _, some (.file _), _ => .error .other
  | _, _, some (.file _) => .error .other
  | _, _, _ =>
      .ok (put [module_id, version] .directory (put [module_id] .directory (put [] .directory tree)))

/-- `store_candidate` on the text of the source, with the tree that it leaves. The file is
    opened before its text is encoded. -/
def store_candidate (lib : Library) (config : Document) (environment_policy : Dict)
    (source : Option Text) (tree : Tree) : Building (List Text × Bool) × Tree :=
  match parsed lib source >>= validate_candidate lib config environment_policy with
  | .error failure => (.error failure, tree)
  | .ok value =>
      match get value "module_id", get value "version" with
      | .str module_id, .str version =>
          let destination := [module_id, version, text "provenance.json"]
          let rendered := Json.canonical_json (.obj value)
          match tree destination with
          | some .directory => (.error .other, tree)
          | some (.file content) =>
              (do
                let existing ← parsed lib content
                compare_candidate existing value
                .ok (destination, false), tree)
          | none =>
              match makeDirectories module_id version tree with
              | .error failure => (.error failure, tree)
              | .ok made =>
                  if Text.Encodable rendered then
                    (.ok (destination, true), put destination (.file (some rendered)) made)
                  else
                    (.error (.value (text "surrogates not allowed")),
                      put destination (.file (some [])) made)
      | _, _ => (.error .other, tree)

end PackageRegistry.Builder
