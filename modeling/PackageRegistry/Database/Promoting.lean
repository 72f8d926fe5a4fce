import PackageRegistry.Database.Importing

/-! # Promoting a candidate

`RegistryPromotionService.promote` of `web/backend/app/registry_promotion.py`, with the reviewed
candidates of GitHub. The store is outside: it has published and verified the artifact, or not.
-/

namespace PackageRegistry.Database

open Transactions Relational
open PackageRegistry.Builder (get str)
open PackageRegistry.Promotion (ReviewedCandidate Approving candidate_digest)

def EXPECTED_SCHEMA_REVISION : Text := text "0049_promotions"

/-- `repo.schema_revision()` -/
def Settings.schema_revision (s : Settings) : Option Text :=
  match s.revisions with
  | [revision] => some revision
  | _ => none

def isKeyChar (c : CodePoint) : Bool :=
  c.isLower || c.isUpper || c.isDigit ||
    [CodePoint.ofChar ':', .ofChar '.', .ofChar '_', .ofChar '-'].contains c

/-- `[A-Za-z0-9][A-Za-z0-9:._-]{0,199}` -/
def isIdempotencyKey : Text → Bool
  | [] => false
  | c :: rest => (c.isLower || c.isUpper || c.isDigit) && rest.length ≤ 199 && rest.all isKeyChar

/-- What a promotion is called with, and what it meets with -/
structure PromotionCall where
  intent : PromotionIntent
  api : Text → Approving Json
  /-- What GitHub answers has been read by `json.loads`. -/
  api_plain : ∀ path v, api path = .ok v → Json.Plain v
  /-- `store.publish`, and then `store.verify` -/
  stored : Except Store.StoreError Store.StoredArtifact
  now : Time

/-- What is bound before the transaction begins -/
structure Binding where
  source_repository : Text
  classification : Text
  release : Dict
  provenance : BuildProvenance
  bound_intent : Json
  reviewed : ReviewedCandidate
  artifact : Store.StoredArtifact

abbrev Binds := Except DatabaseException

def refused {α : Type} (message : String) : Binds α :=
  .error (.conflict (.message (text message)))

/-- A field of a validated candidate, which is a string -/
def textAt (value : Dict) (key : String) : Binds Text :=
  match Builder.get value key with
  | .str t => .ok t
  | _ => .error .data

/-- The URL and the other fields of a release; its keys are in the order of `canonical_json`. -/
def candidate_release (value : Dict) : Binds (Text × Dict) := do
  let module_id ← textAt value "module_id"
  let version ← textAt value "version"
  match Store.canonical_artifact_relative_path module_id version with
  | none => .error (.store (.invalidArtifact "Invalid module ID or SemVer"))
  | some _ => do
      let url := Store.canonical_public_artifact_url module_id version
      .ok (url,
        [(text "artifact", .obj
            [(text "sha256", Builder.get value "bundle_sha256"), (text "url", .str url)]),
          (text "bundle_format_version", Builder.get value "bundle_format_version"),
          (text "channel", Builder.get value "planned_channel"),
          (text "requires", Builder.get value "requires"),
          (text "source_commit", Builder.get value "source_commit"),
          (text "source_tag", Builder.get value "source_tag"),
          (text "version", .str version)])

/-- `environment.get("host_commit")` of a build environment that is not empty -/
def hostCommit (value : Dict) : Binds (Option Text) :=
  match value.lookup (text "build_environment") with
  | some (.obj (field :: fields)) =>
      match List.lookup (text "host_commit") (field :: fields) with
      | some (.str commit) => .ok (some commit)
      | none | some .null => .ok none
      | some _ => .error .data
  | _ => .ok none

def PromotionIntent.toDict (intent : PromotionIntent) : Dict :=
  [(text "approval_pr", .int intent.approval_pr),
    (text "bundle_sha256", .str intent.bundle_sha256),
    (text "candidate_sha256", .str intent.candidate_sha256),
    (text "channel", .str intent.channel),
    (text "expected_channel_revision", .int intent.expected_channel_revision),
    (text "idempotency_key", .str intent.idempotency_key),
    (text "module_id", .str intent.module_id),
    (text "version", .str intent.version)]

section

variable (s : Settings)

/-- All that comes before the transaction -/
def bindIntent (call : PromotionCall) : Binds Binding := do
  let intent := call.intent
  if isIdempotencyKey intent.idempotency_key = false ∨ intent.expected_channel_revision < 0 then
    refused "Invalid promotion key or expected channel revision"
  else do
    let reviewed ← (Promotion.load s.lib s.config s.environment_policy call.api s.sha256
      intent.module_id intent.version intent.approval_pr intent.candidate_sha256).mapError .approval
    match reviewed.value with
    | some (.obj value) => do
        if candidate_digest s.sha256 value ≠ some intent.candidate_sha256 ∨
            Json.equal (Builder.get value "planned_channel") (.str intent.channel) = false ∨
            Json.equal (Builder.get value "bundle_sha256") (.str intent.bundle_sha256) = false then
          refused "Intent does not match reviewed candidate"
        else do
          let (url, release) ← candidate_release value
          let source_repository ← textAt value "source_repository"
          let source_tag ← textAt value "source_tag"
          let source_commit ← textAt value "source_commit"
          let builder_commit ← textAt value "builder_commit"
          let classification ← textAt value "classification"
          let host_commit ← hostCommit value
          let artifact ← call.stored.mapError .store
          if artifact.digest ≠ intent.bundle_sha256 ∨ artifact.public_url ≠ url then
            refused "Stored artifact differs from approved binding"
          else
            .ok
              { source_repository := source_repository
                classification := classification
                release := release
                provenance :=
                  { source_repository := source_repository
                    source_tag := some source_tag
                    source_commit := source_commit
                    builder_version := some (str s.lib (Builder.get value "builder_version"))
                    builder_commit := some builder_commit
                    host_commit := host_commit
                    reproducible := some true
                    host_contract_status := some (text "passed")
                    environment_json := value.lookup (text "build_environment") }
                bound_intent := .obj (intent.toDict ++
                  [(text "approval_reference", .str reviewed.approval_reference),
                    (text "approval_identity", reviewed.approval_identity),
                    (text "merge_commit", .str reviewed.merge_commit),
                    (text "candidate", .obj value)])
                reviewed := reviewed
                artifact := artifact }
    | _ => .error .data

/-! ## The transaction -/

/-- The release of the candidate, validated as a part of its module -/
def releaseIn (head : ModuleHead) (release : Dict) : Program Release := do
  -- the versions come last
  let document := (Module.toDict ⟨head, []⟩).dropLast ++ [(text "versions", .arr [.obj release])]
  let module ← checked (validate_module s.lib document (text "promotion") none)
  match module.versions with
  | [release] => pure release
  | _ => raise .data

/-- The committed intent is repeated. -/
def replay (call : PromotionCall) (b : Binding) (release : Release) (previous : PromotionEvent) :
    Program PromotionResult :=
  if Json.canonical_json previous.intent ≠ Json.canonical_json b.bound_intent then
    conflict (text "Idempotency key conflicts with committed intent")
  else do
    let _ ← insert_published_version s call.intent.module_id release none
      (some ⟨b.provenance, call.now⟩)
    pure { previous.result with status := "already-published" }

/-- What is known of the storage of an artifact is completed, and never replaced. -/
def completeStorage (artifact : Store.StoredArtifact) (stored : ArtifactRow) : Program Unit :=
  if stored.byte_size.any (· != artifact.byte_size) ||
      stored.storage_locator.any (· != artifact.storage_locator) then
    conflict (text "Existing artifact storage binding conflicts")
  else if stored.byte_size.isSome && stored.storage_locator.isSome then pure ()
  else updateRow () .artifacts artifact.digest fun row =>
    { byte_size := if stored.byte_size.isNone then some artifact.byte_size else row.byte_size
      storage_locator :=
        if stored.storage_locator.isNone then some artifact.storage_locator
        else row.storage_locator }

def movePointer (module_id : Text) (channel : Channel) (version : Text) :
    Option ModuleChannel → Program Unit
  | none => add s .module_channels (channelId module_id channel) ⟨module_id, channel, version, 1⟩
  | some pointer => do
      updateRow () .module_channels (channelId module_id channel) fun row =>
        { row with version := version, revision := pointer.revision + 1 }
      referAll (references .module_channels ⟨module_id, channel, version, pointer.revision + 1⟩)

def hasEvent (db : Db) (module_id version : Text) : Bool :=
  (db.table .promotion_events).toList.any fun e =>
    e.2.module_id == module_id && e.2.version == version

def addEvent (key : Text) (event : PromotionEvent) : Program Unit := do
  sendable s .promotion_events key event
  enter () (.promotion_events_version event.module_id event.version) fun db =>
    hasEvent db event.module_id event.version
  insertRow () .promotion_events key event
  referAll (references .promotion_events event)

def resultOf (call : PromotionCall) (b : Binding) (channel : Channel)
    (pointer : Option ModuleChannel) : PromotionResult where
  promotion_id := call.intent.idempotency_key
  module := call.intent.module_id
  version := call.intent.version
  channel := channel
  previous_channel_target := pointer.map (·.version)
  new_channel_target := call.intent.version
  channel_revision := (pointer.map (·.revision)).getD 0 + 1
  artifact_sha256 := b.artifact.digest
  artifact_url := b.artifact.public_url
  storage_locator := b.artifact.storage_locator
  byte_size := b.artifact.byte_size
  status := "published"

def eventOf (call : PromotionCall) (b : Binding) (channel : Channel)
    (pointer : Option ModuleChannel) : PromotionEvent where
  module_id := call.intent.module_id
  version := call.intent.version
  channel := channel
  candidate_digest := call.intent.candidate_sha256
  approval_reference := b.reviewed.approval_reference
  approval_identity := b.reviewed.approval_identity
  previous_channel_version := pointer.map (·.version)
  new_channel_version := call.intent.version
  intent := s.jsonb b.bound_intent
  result := resultOf call b channel pointer

/-- The future state as a whole -/
def checkRepresentable : Program Unit := do
  let modules ← project_v1 none
  let targets ← channel_targets none
  match validate_v1_representability s.lib modules targets with
  | .ok _ => pure ()
  | .error e => raise e

/-- The writes of a promotion. The channel of the release is the one of the intent. -/
def publishVersion (call : PromotionCall) (b : Binding) (release : Release)
    (pointer : Option ModuleChannel) : Program PromotionResult := do
  let stored ← ensure_artifact s b.artifact.digest
  completeStorage b.artifact stored
  let inserted ← insert_published_version s call.intent.module_id release none
    (some ⟨b.provenance, call.now⟩)
  if inserted = false then
    conflict (text "Existing version has no matching committed promotion intent")
  else do
    movePointer s call.intent.module_id release.channel call.intent.version pointer
    checkRepresentable s
    addEvent s call.intent.idempotency_key (eventOf s call b release.channel pointer)
    pure (resultOf call b release.channel pointer)

def promoteRelease (call : PromotionCall) (b : Binding) (release : Release) :
    Program PromotionResult := do
  if ← Tx.query () fun db => hasEvent db call.intent.module_id call.intent.version then
    conflict (text "Version already belongs to another promotion intent")
  else do
    let pointer ← Database.get .module_channels (channelId call.intent.module_id release.channel)
    if (((pointer.map (·.revision)).getD 0 : Nat) : Int) ≠ call.intent.expected_channel_revision then
      conflict (text "Stale channel revision; fresh approval required")
    else publishVersion s call b release pointer

/-- The module is there, and locked. -/
def promoteModule (call : PromotionCall) (b : Binding) (module : ModuleRow) :
    Program PromotionResult :=
  if module.source_repository ≠ b.source_repository then
    conflict (text "Candidate does not match registered module identity")
  else if module.classification.name ≠ b.classification then
    conflict (text "Candidate classification differs from registered module")
  else do
    let head ← module_structure call.intent.module_id module
    let release ← releaseIn s head b.release
    match ← Database.get .promotion_events call.intent.idempotency_key with
    | some previous => replay s call b release previous
    | none => promoteRelease s call b release

def promotion (call : PromotionCall) (b : Binding) : Program PromotionResult := do
  Tx.acquire () (.index (.promotion call.intent.idempotency_key)) .update
  if s.schema_revision ≠ some EXPECTED_SCHEMA_REVISION then
    conflict (text "Registry schema is not ready for promotion")
  else do
    match ← selectForUpdate () .modules fun id _ => id == call.intent.module_id with
    | none => conflict (text "Candidate does not match registered module identity")
    | some (_, module) => promoteModule s call b module

def promote (call : PromotionCall) : Program PromotionResult :=
  match bindIntent s call with
  | .error e => raise e
  | .ok b => promotion s call b

end

end PackageRegistry.Database
