import PackageRegistry.Builder.Rebuild
import PackageRegistry.Database.Publishing

/-! # What a promotion is bound to

The release that is published, the artifact and the stored intent are those of the reviewed
candidate, which is the one that the intent names.
-/

namespace PackageRegistry.Database

open Transactions Relational Checks
open PackageRegistry.Builder (get_reread lookup_reread reread)
open PackageRegistry.Promotion (Approving ReviewedCandidate mapError_ok)

/-! ## The reviewed candidate -/

theorem item_ok {value v : Json} {key : String} :
    Promotion.item value key = .ok v ↔ value.field (text key) = some v := by
  unfold Promotion.item
  cases value.field (text key) <;> simp

theorem plain_item {value v : Json} {key : String} (plain : Json.Plain value)
    (h : Promotion.item value key = .ok v) : Json.Plain v := by
  rw [item_ok] at h
  cases value with
  | obj fields => exact (Json.plainFields_iff fields).mp plain.2 _ (Json.mem_of_lookup h)
  | null | bool | int | float | str | arr => cases h

/-- The candidate is the one that was asked for. -/
structure Reviewed (module_id version : Text) (reviewed : ReviewedCandidate) (value : Dict) :
    Prop where
  canonical : reviewed.canonical = Json.canonical_json (.obj value)
  plain : Json.Plain (.obj value)
  module_id : Builder.get value "module_id" = .str module_id
  version : Builder.get value "version" = .str version
  identity : Json.Plain reviewed.approval_identity

theorem load_reviewed {lib : Library} {config : Builder.Document} {environment_policy : Dict}
    {api : Text → Approving Json} (plain : ∀ path v, api path = .ok v → Json.Plain v)
    {sha256 : Promotion.Hash} {module_id version expected : Text} {approval_pr : Int}
    {reviewed : ReviewedCandidate}
    (loaded : Promotion.load lib config environment_policy api sha256 module_id version approval_pr
      expected = .ok reviewed) : ∃ value, Reviewed module_id version reviewed value := by
  unfold Promotion.load at loaded
  simp only [bind_ok, guard_ok error_ok, Promotion.disapprove, Except.ok.injEq, not_or,
    Bool.not_eq_false, Json.equal_str] at loaded
  obtain ⟨_, -, _, -, -, pr, answered, merged, -, -, head, -, sha, -, merge_sha, -, commit, -,
    merge, -, files, -, _, -, value, first, _, -, _, -, _, -, ⟨sameModule, sameVersion⟩, _, -,
    merged_by, byUser, login, byLogin, built⟩ := loaded
  refine ⟨value, ?_, Promotion.loadAt_plain first, sameModule, sameVersion, ?_⟩
  · rw [← built]
  · rw [← built]
    exact plain_item (plain_item (plain _ pr answered) byUser) byLogin

theorem Reviewed.value {module_id version : Text} {reviewed : ReviewedCandidate} {value : Dict}
    (h : Reviewed module_id version reviewed value) :
    reviewed.value = some (.obj (reread value)) := by
  rw [ReviewedCandidate.value, h.canonical, Json.loads_canonical_json h.plain]
  rfl

theorem plain_reread {value : Dict} (plain : Json.Plain (.obj value)) :
    Json.Plain (.obj (reread value)) := by
  have sorted := Json.plain_sortKeys plain
  rwa [Json.sortKeys] at sorted

/-! ## The binding -/

/-- What the transaction relies on -/
structure Bound (call : PromotionCall) (b : Binding) : Prop where
  version : required b.release "version" = .str call.intent.version
  channel : required b.release "channel" = .str call.intent.channel
  digest : b.artifact.digest = call.intent.bundle_sha256
  artifact : ∃ artifact, required b.release "artifact" = .obj artifact ∧
    required artifact "url" = .str b.artifact.public_url ∧
    required artifact "sha256" = .str b.artifact.digest
  intent : ∃ fields, b.bound_intent = .obj fields ∧ Json.Plain (.obj fields) ∧
    fields.lookup (text "module_id") = some (.str call.intent.module_id) ∧
    fields.lookup (text "version") = some (.str call.intent.version)

theorem refused_ok {α : Type} {message : String} {a : α} :
    (refused message : Binds α) = .ok a ↔ False := by
  simp [refused]

theorem candidate_release_ok {value : Dict} {url version : Text} {release : Dict}
    (named : Builder.get value "version" = .str version)
    (h : candidate_release value = .ok (url, release)) :
    required release "version" = .str version ∧
      required release "channel" = Builder.get value "planned_channel" ∧
      ∃ artifact, required release "artifact" = .obj artifact ∧
        required artifact "url" = .str url ∧
        required artifact "sha256" = Builder.get value "bundle_sha256" := by
  unfold candidate_release at h
  simp only [textAt, named, bind_ok, Except.ok.injEq] at h
  obtain ⟨module_id, -, _, rfl, h⟩ := h
  split at h
  · cases h
  · simp only [Except.ok.injEq, Prod.mk.injEq] at h
    obtain ⟨rfl, rfl⟩ := h
    simp +decide [required, lookup_cons]

theorem plain_intent (intent : PromotionIntent) {reviewed : ReviewedCandidate} {value : Dict}
    (identity : Json.Plain reviewed.approval_identity) (plain : Json.Plain (.obj value)) :
    Json.Plain (.obj (intent.toDict ++
      [(text "approval_reference", .str reviewed.approval_reference),
        (text "approval_identity", reviewed.approval_identity),
        (text "merge_commit", .str reviewed.merge_commit),
        (text "candidate", .obj value)])) := by
  refine ⟨by simp +decide [PromotionIntent.toDict], (Json.plainFields_iff _).mpr ?_⟩
  simp only [PromotionIntent.toDict, List.forall_mem_append, List.forall_mem_cons]
  exact ⟨⟨trivial, trivial, trivial, trivial, trivial, trivial, trivial, trivial, by simp⟩,
    trivial, identity, trivial, plain, by simp⟩

theorem bindIntent_ok {s : Settings} {call : PromotionCall} {b : Binding}
    (h : bindIntent s call = .ok b) : Bound call b := by
  simp only [bindIntent, guard_ok refused_ok, bind_ok, mapError_ok] at h
  obtain ⟨-, reviewed, loaded, h⟩ := h
  obtain ⟨value, candidate⟩ := load_reviewed call.api_plain loaded
  rw [candidate.value] at h
  have named : Builder.get (reread value) "version" = .str call.intent.version := by
    rw [get_reread candidate.plain, candidate.version]
    rfl
  simp only [guard_ok refused_ok, bind_ok, mapError_ok, Except.ok.injEq, not_or, not_not,
    Bool.not_eq_false, Json.equal_str, Prod.exists] at h
  obtain ⟨⟨-, planned, bundle⟩, url, release, released, source, -, tag, -, commit, -, builder, -,
    classification, -, host, -, artifact, -, ⟨digest, published⟩, rfl⟩ := h
  obtain ⟨version, channel, fields, atArtifact, atUrl, atSha256⟩ := candidate_release_ok named released
  refine ⟨version, channel.trans planned, digest, ⟨fields, atArtifact, ?_, ?_⟩, _, rfl,
    plain_intent _ candidate.identity (plain_reread candidate.plain), ?_, ?_⟩
  · rw [atUrl, published]
  · rw [atSha256, bundle, digest]
  · simp +decide [PromotionIntent.toDict, lookup_cons]
  · simp +decide [PromotionIntent.toDict, lookup_cons]

/-! ## The stored intent -/

/-- A stored intent that is repeated names the same version. -/
theorem same_intent {s : Settings} {fields fields' : Dict} (plain : Json.Plain (.obj fields))
    (plain' : Json.Plain (.obj fields'))
    (same : Json.canonical_json (s.jsonb (.obj fields)) = Json.canonical_json (.obj fields'))
    {key t t' : Text} (named : fields.lookup key = some (.str t))
    (named' : fields'.lookup key = some (.str t')) : t = t' := by
  obtain ⟨stored, read, plainStored, kept⟩ := s.jsonb_keeps fields plain
  rw [read] at same
  have sorted := ((Json.canonical_json_iff plainStored plain').mp same).sortKeys_eq plainStored plain'
  rw [Json.sortKeys, Json.sortKeys, Json.obj.injEq] at sorted
  have lookups := congrArg (List.lookup key) sorted
  rw [Json.lookup_sorted plainStored.1, Json.lookup_sorted plain'.1, kept key t named, named'] at lookups
  simpa [Json.sortKeys] using lookups

/-! ## The release -/

/-- The release that is published is the one of the candidate. -/
structure ReleaseOf (call : PromotionCall) (b : Binding) (release : Release) : Prop where
  version : release.version = call.intent.version
  channel : release.channel.name = call.intent.channel
  sha256 : release.artifact.sha256 = b.artifact.digest
  url : release.artifact.url = b.artifact.public_url

theorem releaseIn_leads {R : Restraint Db} {Inv : Db → Prop} {fin : Db} {p : At} {s : Settings}
    {call : PromotionCall} {b : Binding} (bound : Bound call b) {head : ModuleHead} :
    Leading R Inv (fun release p' => p' = p ∧ ReleaseOf call b release)
      (releaseIn s head b.release) fin p := by
  rw [releaseIn, Tx.bind_eq]
  refine (checked_leads (P := fun module p' => p' = p ∧ ∀ release, module.versions = [release] →
    ReleaseOf call b release) fun module accepted => ⟨rfl, ?_⟩).bind fun module p' _ read => ?_
  · intro release only
    obtain ⟨values, atVersions, passed⟩ := versions_read accepted
    have listed : required ((Module.toDict ⟨head, []⟩).dropLast ++
        [(text "versions", .arr [.obj b.release])]) "versions" = .arr [.obj b.release] := by
      rw [Module.toDict, List.dropLast_append_of_ne_nil (by simp)]
      simp +decide [required, List.lookup_append, lookup_optional, lookup_cons]
    rw [listed, Json.arr.injEq] at atVersions
    subst atVersions
    simp only [checkReleases, bind_ok, guard_ok error_ok, only, Except.ok.injEq] at passed
    obtain ⟨release', accepted, -, _, -, same⟩ := passed
    obtain ⟨rfl, -⟩ := List.cons.inj same
    have read := release_read accepted
    obtain ⟨artifact, atArtifact, atUrl, atSha256⟩ := read.artifact
    obtain ⟨fields, atFields, url, sha256⟩ := bound.artifact
    obtain rfl := Json.obj.inj (atArtifact.symm.trans atFields)
    exact ⟨Json.str.inj (read.version.symm.trans bound.version),
      Json.str.inj (read.channel.symm.trans bound.channel),
      Json.str.inj (atSha256.symm.trans sha256), Json.str.inj (atUrl.symm.trans url)⟩
  · obtain ⟨rfl, release_of⟩ := read
    split
    · exact pure_leads ⟨rfl, release_of _ ‹_›⟩
    · exact raise_leads

end PackageRegistry.Database
