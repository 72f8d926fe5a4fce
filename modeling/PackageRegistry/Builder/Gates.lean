import PackageRegistry.Registry.History
import PackageRegistry.Builder.Accepted
import PackageRegistry.Builder.Orchestrate

/-! # What a run has passed

The record that `orchestrate` returns, and what every gate before it has found.
-/

namespace PackageRegistry.Builder

open Checks

/-! ## Policies -/

theorem checks_refuse {α : Type} {message : Text} {a : α} :
    (refuse message : Building α) = .ok a ↔ False := error_ok

theorem policyOf_ok {module_id : Text} {item : Json} {policy : ModulePolicy}
    (h : policyOf module_id item = .ok policy) :
    policy.module_id = module_id ∧ policy.classification = text "first-party" := by
  unfold policyOf at h
  repeat' split at h
  all_goals try cases h
  have classified := not_not.mp ‹¬_ ≠ text "first-party"›
  rw [check_ok] at h
  cases h.2
  exact ⟨rfl, classified⟩

theorem loadPolicyItems_ok {modules : Dict} {policies : List (Text × ModulePolicy)}
    (h : loadPolicyItems modules = .ok policies) {module_id : Text} {policy : ModulePolicy}
    (found : policies.lookup module_id = some policy) :
    policy.module_id = module_id ∧ policy.classification = text "first-party" := by
  induction modules generalizing policies with
  | nil =>
      cases h
      cases found
  | cons item rest ih =>
      obtain ⟨id, value⟩ := item
      rw [loadPolicyItems, bind_ok] at h
      obtain ⟨first, read, h⟩ := h
      rw [bind_ok] at h
      obtain ⟨others, later, h⟩ := h
      cases h
      rw [List.lookup_cons] at found
      split at found
      · rename_i same
        cases found
        rw [eq_of_beq same]
        exact policyOf_ok read
      · exact ih later found

theorem load_policies_ok {config : Document} {builder_version : Json}
    {policies : List (Text × ModulePolicy)}
    (h : load_policies config = .ok (builder_version, policies)) :
    Json.equal builder_version (.int 1) = true ∧ ∀ module_id policy,
      policies.lookup module_id = some policy →
        policy.module_id = module_id ∧ policy.classification = text "first-party" := by
  unfold load_policies at h
  repeat' split at h
  all_goals try cases h
  rename_i version
  rw [bind_ok] at h
  obtain ⟨items, read, h⟩ := h
  cases h
  exact ⟨by simpa using version, fun _ _ found => loadPolicyItems_ok read found⟩

/-! ## The host -/

theorem load_host_verifier_contract_ok {contract : Document} {reference : Text}
    (h : load_host_verifier_contract contract = .ok reference) : COMMIT_RE reference = true := by
  unfold load_host_verifier_contract at h
  dsimp only at h
  repeat' split at h
  all_goals try cases h
  simpa using ‹¬COMMIT_RE reference = false›

/-- The host is at a commit that the builder has pinned. -/
theorem validate_host_verifier_checkout_ok {contract : Document} {host_head : Except Text Text}
    {host_installed : Bool}
    (h : validate_host_verifier_checkout contract host_head host_installed = .ok ()) :
    ∃ commit, host_head = .ok commit ∧ COMMIT_RE commit = true := by
  rw [validate_host_verifier_checkout, bind_ok] at h
  obtain ⟨reference, pinned, h⟩ := h
  split at h
  · cases h
  · rename_i here
    cases host_head with
    | error exc => exact absurd here (by simp [Except.toOption])
    | ok commit =>
        have same : commit = reference := by simpa [Except.toOption] using here
        exact ⟨commit, rfl, same ▸ load_host_verifier_contract_ok pinned⟩

theorem builder_commit_ok (head : Except Text Text) :
    (builder_commit head == text "unknown" || COMMIT_RE (builder_commit head)) = true := by
  cases head with
  | error exc => rfl
  | ok value =>
      by_cases commit : COMMIT_RE value = true
      · simp [builder_commit, commit]
      · simp [builder_commit, commit]

/-! ## Sources -/

variable {lib : Library} {pkg : Packaging}

theorem prepare_checkout_ok {policy : ModulePolicy} {tag : Text} {fetched : Except Text Checkout}
    {identity : SourceIdentity} {source : Checkout}
    (h : prepare_checkout lib pkg policy tag fetched = .ok (identity, source)) :
    TAG_RE tag = true ∧ COMMIT_RE source.commit = true ∧
      identity = ⟨policy, tag, tag.tail, source.commit, source.epoch⟩ := by
  rw [prepare_checkout, bind_ok] at h
  obtain ⟨version, parsed, h⟩ := h
  rw [bind_ok] at h
  obtain ⟨found, -, h⟩ := h
  have commit : COMMIT_RE found.commit = true := by
    split at h
    · cases h
    · rename_i commit
      simpa using commit
  rw [if_neg (by simp [commit]), guard_ok checks_refuse, check_ok] at h
  cases h.2.2
  rw [parse_tag] at parsed
  split at parsed
  · cases parsed
    exact ⟨by assumption, commit, rfl⟩
  · cases parsed

/-! ## The environment -/

theorem checkTools_ok {policy versions : Dict} (h : checkTools lib policy versions = .ok ())
    {f : Text × Json} (mem : f ∈ versions) :
    ∃ expected, policy.lookup f.1 = some expected ∧ Json.equal expected f.2 = true := by
  induction versions with
  | nil => cases mem
  | cons g rest ih =>
      obtain ⟨key, value⟩ := g
      rw [checkTools] at h
      split at h
      · cases h
      · rename_i expected found
        split at h
        · cases h
        · rename_i same
          rcases List.mem_cons.mp mem with rfl | later
          · exact ⟨expected, found, by simpa using same⟩
          · exact ih h later

theorem run_ok {α : Type} {command : Except Text α} {answer : α} :
    run command = .ok answer ↔ command = .ok answer := by
  cases command <;> simp [run, refuse]

theorem versions_distinct (machine : Machine) (uv node : Text) (pnpm : Option Text) :
    ((versions machine uv node pnpm).map (·.1)).Nodup := by
  cases pnpm with
  | none => exact (by decide : [text "python", text "uv", text "node"].Nodup)
  | some _ => exact (by decide : [text "python", text "uv", text "node", text "pnpm"].Nodup)

theorem versions_str {machine : Machine} {uv node : Text} {pnpm : Option Text} {f : Text × Json}
    (mem : f ∈ versions machine uv node pnpm) : ∃ version, f.2 = .str version := by
  rw [versions, List.mem_append] at mem
  rcases mem with tool | frontend
  · simp only [List.mem_cons, List.not_mem_nil, or_false] at tool
    rcases tool with rfl | rfl | rfl <;> exact ⟨_, rfl⟩
  · cases pnpm with
    | none => cases frontend
    | some version => exact ⟨version, by rw [List.mem_singleton.mp frontend]⟩

theorem observed_distinct (machine : Machine) (host_commit : Text) :
    ((observed machine host_commit).map (·.1)).Nodup :=
  (by decide : [text "host_commit", text "builder_commit", text "bundle_format_version",
    text "zlib", text "os", text "architecture", text "runner_image", text "lockfiles"].Nodup)

/-- An environment is the policy, the versions of the tools, which have been compared to it,
    and what has only been observed. -/
theorem collect_environment_ok {policy : Dict} {machine : Machine} {source : Checkout}
    {environment : Dict} (h : collect_environment lib policy machine source = .ok environment) :
    ∃ uv node pnpm host_commit, machine.host_commit = .ok host_commit ∧
      checkTools lib policy (versions machine uv node pnpm) = .ok () ∧
        environment = update (update policy (versions machine uv node pnpm))
          (observed machine host_commit) := by
  rw [collect_environment, bind_ok] at h
  obtain ⟨uv, -, h⟩ := h
  rw [bind_ok] at h
  obtain ⟨node, -, h⟩ := h
  rw [bind_ok] at h
  obtain ⟨host_python, -, h⟩ := h
  split at h
  · cases h
  · rw [guard_ok checks_refuse, bind_ok] at h
    obtain ⟨-, pnpm, -, h⟩ := h
    rw [check_ok, bind_ok] at h
    obtain ⟨compared, host_commit, head, h⟩ := h
    cases h
    exact ⟨uv, node, pnpm, host_commit, run_ok.mp head, compared, rfl⟩

theorem collected_builder_commit {policy : Dict} {machine : Machine} {source : Checkout}
    {environment : Dict} (h : collect_environment lib policy machine source = .ok environment) :
    get environment "builder_commit" = .str (builder_commit machine.repository_head) := by
  obtain ⟨uv, node, pnpm, host_commit, -, -, rfl⟩ := collect_environment_ok h
  rw [get, lookup_update (observed_distinct machine host_commit)]
  rfl

theorem collected_host_commit {policy : Dict} {machine : Machine} {source : Checkout}
    {environment : Dict} (h : collect_environment lib policy machine source = .ok environment)
    {host_commit : Text} (head : machine.host_commit = .ok host_commit) :
    environment.lookup (text "host_commit") = some (.str host_commit) := by
  obtain ⟨uv, node, pnpm, commit, here, -, rfl⟩ := collect_environment_ok h
  cases here.symm.trans head
  rw [lookup_update (observed_distinct machine host_commit)]
  rfl

/-- The policy is a dictionary, and where it names what is only observed it agrees with it. -/
structure Conforming (policy : Dict) (machine : Machine) : Prop where
  plain : Json.Plain (.obj policy)
  agrees : ∀ host_commit, machine.host_commit = .ok host_commit →
    ∀ f ∈ observed machine host_commit, ∀ expected, policy.lookup f.1 = some expected →
      Json.equal f.2 expected = true

/-- The environment of a conforming machine meets the policy. -/
theorem Conforming.meets {policy : Dict} {machine : Machine} (conforming : Conforming policy machine)
    {source : Checkout} {environment : Dict}
    (h : collect_environment lib policy machine source = .ok environment) :
    meetsPolicy policy environment = true := by
  obtain ⟨uv, node, pnpm, host_commit, head, compared, rfl⟩ := collect_environment_ok h
  obtain ⟨distinct, values⟩ := conforming.plain
  rw [meetsPolicy, List.all_eq_true]
  intro f mem
  have known : policy.lookup f.1 = some f.2 := Json.lookup_of_mem distinct mem
  rw [lookup_update (observed_distinct machine host_commit),
    lookup_update (versions_distinct machine uv node pnpm), known]
  cases seen : (observed machine host_commit).lookup f.1 with
  | some value =>
      exact conforming.agrees host_commit head (f.1, value) (mem_of_lookup seen) f.2 known
  | none =>
      cases tool : (versions machine uv node pnpm).lookup f.1 with
      | some value =>
          obtain ⟨expected, found, same⟩ := checkTools_ok compared (mem_of_lookup tool)
          obtain ⟨version, rfl⟩ := versions_str (mem_of_lookup tool)
          cases known.symm.trans found
          rw [(Json.equal_str f.2 version).mp same]
          exact (Json.equal_str _ version).mpr rfl
      | none => exact Json.equal_self ((Json.plainFields_iff policy).mp values f mem)

/-! ## The registry -/

/-- What the registry says about a version: the module is there, a release of the version has
    the same provenance, and the status tells whether there is one. -/
structure Known (lib : Library) (root : RegistryRoot) (identity : SourceIdentity)
    (digest status : Text) (module : Module) : Prop where
  loaded : ∃ modules, load_registry lib root = .ok modules ∧
    modules.find? (·.id == identity.policy.module_id) = some module
  same : ∀ release, registered module identity.version = some release →
    release.source_commit = identity.commit ∧ release.artifact.sha256 = digest
  status : status =
    if (registered module identity.version).isSome then text "already-registered" else text "new"

theorem check_registry_immutability_ok {root : RegistryRoot} {identity : SourceIdentity}
    {digest status : Text}
    (h : check_registry_immutability lib root identity digest = .ok status) :
    ∃ module, Known lib root identity digest status module := by
  rw [check_registry_immutability, bind_ok] at h
  obtain ⟨modules, loaded, h⟩ := h
  have read : load_registry lib root = .ok modules := by
    rw [loadRegistry] at loaded
    cases here : load_registry lib root with
    | error e => rw [here] at loaded; cases loaded
    | ok found => rw [here] at loaded; cases loaded; rfl
  split at h
  · cases h
  rename_i module found
  split at h
  · rename_i release known
    split at h
    · cases h
    · rename_i same
      cases h
      rw [not_or, not_not, not_not] at same
      refine ⟨module, ⟨modules, read, found⟩, fun other again => ?_, by rw [known]; rfl⟩
      cases known.symm.trans again
      exact same
  · rename_i absent
    cases h
    exact ⟨module, ⟨modules, read, found⟩, fun release known => (by rw [absent] at known; cases known),
      by rw [absent]; rfl⟩

/-- The id of a module that the registry knows -/
theorem Known.module_id {root : RegistryRoot} {identity : SourceIdentity} {digest status : Text}
    {module : Module} (known : Known lib root identity digest status module) :
    MODULE_ID_RE identity.policy.module_id = true := by
  obtain ⟨modules, loaded, found⟩ := known.loaded
  have named : module.id = identity.policy.module_id := by
    simpa using List.find?_some found
  have valid := (load_registry_ok loaded).1 module (List.mem_of_find?_eq_some found)
  exact named ▸ valid.id.2

/-! ## The record -/

/-- What a candidate is made of -/
structure Findings where
  identity : SourceIdentity
  builder_version : Json
  requires : Dict
  digest : Sha256
  builder_commit : Text
  run_id : Text
  planned_channel : Text
  registry_status : Text
  environment : Dict

/-- The record of a candidate -/
def Findings.candidate (f : Findings) : Dict :=
  [(text "schema_version", .int 1),
    (text "module_id", .str f.identity.policy.module_id),
    (text "version", .str f.identity.version),
    (text "classification", .str f.identity.policy.classification),
    (text "source_repository", .str f.identity.policy.source_url),
    (text "source_tag", .str f.identity.tag),
    (text "source_commit", .str f.identity.commit),
    (text "builder_version", f.builder_version),
    (text "builder_commit", .str f.builder_commit),
    (text "bundle_format_version", .int 1),
    (text "bundle_sha256", .str f.digest.digest),
    (text "artifact_candidate", .str (text "github-actions://run/" ++ f.run_id ++ text "/" ++
      (f.identity.policy.module_id ++ text "-" ++ f.identity.version))),
    (text "reproducible", .bool true),
    (text "host_contract", .str (text "passed")),
    (text "planned_channel", .str f.planned_channel),
    (text "requires", .obj f.requires),
    (text "registry_status", .str f.registry_status),
    (text "build_environment", .obj f.environment)]

theorem Findings.keys (f : Findings) :
    f.candidate.map (·.1) = REQUIRED ++ [text "build_environment"] := rfl

/-- The keys are distinct, so the field at a position is the one found under its key. -/
theorem Findings.recorded (f : Findings) (position : Nat) {key : String} {v : Json}
    (here : f.candidate[position]? = some (text key, v)) : get f.candidate key = v := by
  have distinct : (f.candidate.map (·.1)).Nodup := by
    rw [f.keys]
    decide
  rw [get, Json.lookup_of_mem distinct (List.mem_of_getElem? here)]
  rfl

/-- `create_candidate`, and what `orchestrate` adds to it -/
theorem create_candidate_ok (f : Findings) {module_yaml : Document} {manifest : Dict}
    (read : _mapping module_yaml "module.yaml" = .ok manifest)
    (found : manifest.lookup (text "requires") = some (.obj f.requires)) (commit : Text) :
    ∃ candidate, create_candidate module_yaml f.identity f.digest.digest f.builder_version commit
        f.run_id f.planned_channel = .ok candidate ∧
      set (text "build_environment") (.obj f.environment)
        (set (text "registry_status") (.str f.registry_status)
          (set (text "builder_commit") (.str f.builder_commit) candidate)) = f.candidate := by
  rw [create_candidate, read, ok_bind, found]
  exact ⟨_, rfl, rfl⟩

/-- What has held of the findings when a run returns -/
structure Passed (lib : Library) (outside : Outside) (module_id tag : Text) (f : Findings) :
    Prop where
  allowlisted : ∃ policies, load_policies outside.config = .ok (f.builder_version, policies) ∧
    policies.lookup module_id = some f.identity.policy
  tag_re : TAG_RE tag = true
  source_tag : f.identity.tag = tag
  version : f.identity.version = tag.tail
  commit : COMMIT_RE f.identity.commit = true
  host : ∃ commit, outside.machine.host_commit = .ok commit ∧ COMMIT_RE commit = true
  environment : ∃ source,
    collect_environment lib outside.environment_policy outside.machine source = .ok f.environment
  builder_commit : f.builder_commit = builder_commit outside.machine.repository_head
  history : ∀ record ∈ outside.records,
    checkRecord f.identity f.digest.digest f.builder_version record = .ok ()
  channel : f.planned_channel ∈ [text "stable", text "beta", text "nightly"]
  known : ∃ module,
    Known lib outside.registry f.identity f.digest.digest f.registry_status module

theorem run_host_lifecycle_ok {outside : Outside} {source : Checkout}
    (h : run_host_lifecycle lib pkg outside source = .ok ()) :
    ∃ manifest requires, _mapping source.module_yaml "module.yaml" = .ok manifest ∧
      manifest.lookup (text "requires") = some (.obj requires) := by
  rw [run_host_lifecycle, bind_ok] at h
  obtain ⟨manifest, read, h⟩ := h
  rw [bind_ok] at h
  obtain ⟨dependencies, chosen, -⟩ := h
  rw [_dependency_candidates, bind_ok] at chosen
  obtain ⟨registry, -, chosen⟩ := chosen
  split at chosen
  · cases chosen
  rename_i value found
  rw [bind_ok] at chosen
  obtain ⟨fields, object, -⟩ := chosen
  cases value with
  | obj requires => exact ⟨manifest, requires, read, found⟩
  | _ => cases object

theorem written_ok {candidate result : Dict} (h : written candidate = .ok result) :
    result = candidate := by
  rw [written] at h
  split at h
  · cases h
    rfl
  · cases h

theorem record_ok {outside : Outside} {identity : SourceIdentity} {source : Checkout}
    {environment : Dict} {builder_version : Json} {digest : Sha256}
    {run_id planned_channel : Text} {candidate : Dict}
    (collected : get environment "builder_commit" =
      .str (builder_commit outside.machine.repository_head))
    (h : record lib pkg outside identity source environment builder_version digest.digest run_id
      planned_channel = .ok candidate) :
    ∃ requires registry_status,
      check_candidate_history outside.records identity digest.digest builder_version = .ok () ∧
      planned_channel ∈ [text "stable", text "beta", text "nightly"] ∧
      check_registry_immutability lib outside.registry identity digest.digest =
        .ok registry_status ∧
      candidate = Findings.candidate
        { identity, builder_version, requires, digest, run_id, planned_channel, registry_status,
          environment, builder_commit := builder_commit outside.machine.repository_head } := by
  rw [record, check_ok, check_ok, check_ok, guard_ok checks_refuse, bind_ok] at h
  obtain ⟨history, -, lifecycle, channel, candidate, assembled, h⟩ := h
  rw [bind_ok] at h
  obtain ⟨registry_status, status, h⟩ := h
  obtain ⟨manifest, requires, read, object⟩ := run_host_lifecycle_ok lifecycle
  rw [create_candidate, read, ok_bind, object] at assembled
  cases assembled
  rw [collected] at h
  rw [Bool.not_eq_false, List.contains_iff_mem] at channel
  exact ⟨requires, registry_status, history, channel, status, written_ok h⟩

theorem orchestrate_ok {outside : Outside} {module_id tag run_id planned_channel : Text}
    {candidate : Dict}
    (h : orchestrate lib pkg outside module_id tag run_id planned_channel = .ok candidate) :
    ∃ f, Passed lib outside module_id tag f ∧ f.run_id = run_id ∧
      f.planned_channel = planned_channel ∧ candidate = f.candidate := by
  rw [orchestrate, bind_ok] at h
  obtain ⟨⟨builder_version, policies⟩, loaded, h⟩ := h
  dsimp only at h
  split at h
  · cases h
  rename_i policy allowed
  rw [check_ok, bind_ok] at h
  obtain ⟨host, ⟨identity, source⟩, prepared, h⟩ := h
  rw [bind_ok] at h
  obtain ⟨environment, collected, h⟩ := h
  rw [bind_ok] at h
  obtain ⟨⟨second_identity, second_source⟩, -, h⟩ := h
  rw [guard_ok checks_refuse, bind_ok] at h
  obtain ⟨-, first, -, h⟩ := h
  rw [bind_ok] at h
  obtain ⟨second, -, h⟩ := h
  rw [guard_ok checks_refuse] at h
  obtain ⟨tagged, commit, rfl⟩ := prepare_checkout_ok prepared
  obtain ⟨requires, registry_status, history, channel, status, rfl⟩ :=
    record_ok (collected_builder_commit collected) h.2
  rw [check_candidate_history, forM_ok] at history
  exact ⟨_, {
    allowlisted := ⟨policies, loaded, allowed⟩
    tag_re := tagged
    source_tag := rfl
    version := rfl
    commit := commit
    host := validate_host_verifier_checkout_ok host
    environment := ⟨source, collected⟩
    builder_commit := rfl
    history := history
    channel := channel
    known := check_registry_immutability_ok status }, rfl, rfl, rfl⟩

end PackageRegistry.Builder
