import PackageRegistry.Lib.Base64
import PackageRegistry.Lib.JsonCanonical
import PackageRegistry.Builder.Candidate

/-! # Reviewed candidates

`candidate_digest` and `GitHubCandidateSource.load` of `scripts/reviewed_candidate.py`. What
GitHub answers is given.
-/

namespace PackageRegistry.Promotion

open Builder (Document Building validate_candidate COMMIT_RE get)

inductive ApprovalFailure where
  /-- `CandidateApprovalError` -/
  | approval (message : Text)
  | registry (error : RegistryError)
  | candidate (failure : Builder.Failure)
  /-- `KeyError`, `TypeError`, `AttributeError` or `ValueError` -/
  | other

abbrev Approving := Except ApprovalFailure

/-- `raise CandidateApprovalError` -/
def disapprove {α : Type} (message : String) : Approving α := .error (.approval (text message))

def REPOSITORY : Text := text "oklabflensburg/open-city-planner-packages"

/-- `value[key]` -/
def item (value : Json) (key : String) : Approving Json :=
  match value.field (text key) with
  | some v => .ok v
  | none => .error .other

/-- `value.get(key, default)` -/
def getOr (value : Json) (key : String) (default : Json) : Approving Json :=
  match value with
  | .obj fields => .ok ((fields.lookup (text key)).getD default)
  | _ => .error .other

/-- `bool` -/
def truthy : Json → Bool
  | .null => false
  | .bool value => value
  | .int value => value != 0
  | .float value => Json.equal (.float value) (.int 0) = false
  | .str value => !value.isEmpty
  | .arr items => !items.isEmpty
  | .obj fields => !fields.isEmpty

/-- `re.fullmatch(r"[0-9a-f]{40}", commit or "")` of a commit that is checked -/
def commitOf (commit : Json) : Approving Text :=
  match commit with
  | .str commit =>
      if COMMIT_RE commit then .ok commit else disapprove "Invalid review commit identity"
  | _ => if truthy commit then .error .other else disapprove "Invalid review commit identity"

/-- The text of a hexadecimal digest -/
abbrev Hash := ByteArray → Text

/-- `canonical_json(candidate).encode()` raises for a surrogate. -/
def candidate_digest (sha256 : Hash) (candidate : Dict) : Option Text :=
  (Text.encode (Json.canonical_json (.obj candidate))).map sha256

structure ReviewedCandidate where
  canonical : Text
  candidate_sha256 : Text
  approval_reference : Text
  approval_identity : Json
  merge_commit : Text

/-- `json.loads(self.canonical)` -/
def ReviewedCandidate.value (reviewed : ReviewedCandidate) : Option Json :=
  Json.loads reviewed.canonical

section

variable (lib : Library) (config : Document) (environment_policy : Dict)
  (api : Text → Approving Json)

/-- A pull request that a person has merged into the main branch of the registry -/
def isMerged (pr : Json) : Approving Bool := do
  let merged ← getOr pr "merged" .null
  if truthy merged = false then .ok false
  else do
    let base ← item pr "base"
    let ref ← item base "ref"
    if Json.equal ref (.str (text "main")) = false then .ok false
    else do
      let repo ← item base "repo"
      let full_name ← item repo "full_name"
      if Json.equal full_name (.str REPOSITORY) = false then .ok false
      else do
        let merged_by ← getOr pr "merged_by" (.obj [])
        let type ← getOr merged_by "type" .null
        .ok (Json.equal type (.str (text "User")))

/-- Whether one of the files of the pull request is the candidate, added or modified -/
def reviewsFile (path : Text) : List Json → Approving Bool
  | [] => .ok false
  | f :: rest => do
      let filename ← item f "filename"
      if Json.equal filename (.str path) then do
        let status ← item f "status"
        match status with
        | .str status =>
            if status = text "added" ∨ status = text "modified" then .ok true
            else reviewsFile path rest
        | .arr _ | .obj _ => .error .other
        | _ => reviewsFile path rest
      else reviewsFile path rest

/-- The candidate at a commit, decoded and validated -/
def loadAt (path ref : Text) : Approving Dict := do
  let content ← api (text "contents/" ++ path ++ text "?ref=" ++ ref)
  let encoding ← getOr content "encoding" .null
  if Json.equal encoding (.str (text "base64")) = false then
    disapprove "Candidate evidence has no file contents"
  else do
    let body ← item content "content"
    match body with
    | .str body =>
        match (Base64.b64decode body).bind Text.decode with
        | none => .error .other
        | some raw => do
            let document ← (decode_json lib raw (text "reviewed candidate")).mapError .registry
            (validate_candidate lib config environment_policy (.obj document)).mapError .candidate
    | _ => .error .other

/-- Every value has the approved digest. -/
def checkDigests (sha256 : Hash) (expected : Text) : List Dict → Approving Unit
  | [] => .ok ()
  | v :: rest =>
      match candidate_digest sha256 v with
      | none => .error .other
      | some digest =>
          if digest ≠ expected then
            disapprove "Candidate differs from approved digest or current main"
          else checkDigests sha256 expected rest

/-- What the code asks of the builder's commit; it is a string after `validate_candidate`. -/
def checkBuilder (value : Dict) : Approving Unit :=
  match get value "builder_commit" with
  | .str builder_commit =>
      if COMMIT_RE builder_commit then .ok ()
      else disapprove "Promotion requires a known builder commit"
  | _ => .error .other

/-- The files of the pull request contain the candidate. -/
def checkFiles (path : Text) (files : Json) : Approving Unit :=
  match Builder.iterate files with
  | none => .error .other
  | some files => do
      let contained ← reviewsFile path files
      if contained then .ok () else disapprove "Approval PR does not contain this candidate"

/-- `GitHubCandidateSource.load` -/
def load (sha256 : Hash) (module_id version : Text) (approval_pr : Int)
    (expected_candidate_sha256 : Text) : Approving ReviewedCandidate := do
  let _ ← (_canonical_id (.str module_id) (text "module ID")).mapError .registry
  let _ ← (validate_semver (.str version) (text "version")).mapError .registry
  if approval_pr ≤ 0 then disapprove "A merged candidate PR is required"
  else do
    let pr ← api (text "pulls/" ++ Json.ofInt approval_pr)
    let merged ← isMerged pr
    if merged = false then
      disapprove "Candidate requires a human-merged PR into Registry main"
    else do
      let head ← item pr "head"
      let sha ← item head "sha"
      let merge_commit_sha ← item pr "merge_commit_sha"
      let reviewed ← commitOf sha
      let merge_commit ← commitOf merge_commit_sha
      let path := text "candidates/" ++ module_id ++ text "/" ++ version ++ text "/provenance.json"
      let files ← api (text "pulls/" ++ Json.ofInt approval_pr ++ text "/files?per_page=100")
      checkFiles path files
      let value ← loadAt lib config environment_policy api path reviewed
      let merged ← loadAt lib config environment_policy api path merge_commit
      let current ← loadAt lib config environment_policy api path (text "main")
      checkDigests sha256 expected_candidate_sha256 [value, merged, current]
      if Json.equal (get value "module_id") (.str module_id) = false ∨
          Json.equal (get value "version") (.str version) = false then
        disapprove "Candidate path/identity mismatch"
      else do
        checkBuilder value
        let merged_by ← item pr "merged_by"
        let login ← item merged_by "login"
        .ok
          { canonical := Json.canonical_json (.obj value)
            candidate_sha256 := expected_candidate_sha256
            approval_reference := text "https://github.com/" ++ REPOSITORY ++ text "/pull/" ++
              Json.ofInt approval_pr
            approval_identity := login
            merge_commit := merge_commit }

end

end PackageRegistry.Promotion
