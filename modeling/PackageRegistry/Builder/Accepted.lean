import PackageRegistry.Registry.Accepted
import PackageRegistry.Builder.Candidate

/-! # What `validate_candidate` accepts

The checks of `validate_candidate` without their messages, and dictionaries that are
updated.
-/

namespace PackageRegistry.Builder

open Checks

/-! ## Dictionaries -/

@[simp] theorem lookup_set (key key' : Text) (item : Json) (value : Dict) :
    (set key item value).lookup key' = if key' = key then some item else value.lookup key' := by
  induction value with
  | nil =>
      rw [set, lookup_cons]
  | cons f rest ih =>
      obtain ⟨k, v⟩ := f
      rw [set]
      split
      · rename_i same
        rw [lookup_cons, lookup_cons, same]
        split <;> rfl
      · rename_i other
        rw [lookup_cons, lookup_cons, ih]
        split
        · rename_i here
          rw [if_neg fun same => other (here.symm.trans same)]
        · rfl

theorem keys_set (key : Text) (item : Json) (value : Dict) :
    (set key item value).map (·.1) =
      if key ∈ value.map (·.1) then value.map (·.1) else value.map (·.1) ++ [key] := by
  induction value with
  | nil => simp [set]
  | cons f rest ih =>
      obtain ⟨k, v⟩ := f
      rw [set]
      split
      · rename_i same
        simp [same]
      · rename_i other
        rw [List.map_cons, ih, List.map_cons]
        by_cases mem : key ∈ rest.map (·.1)
        · rw [if_pos mem, if_pos (List.mem_cons_of_mem _ mem)]
        · rw [if_neg mem, if_neg (by simp [mem, Ne.symm other]), List.cons_append]

theorem mem_set {key : Text} {item : Json} {value : Dict} {g : Text × Json}
    (mem : g ∈ set key item value) : g = (key, item) ∨ g ∈ value := by
  induction value with
  | nil => exact .inl (List.mem_singleton.mp mem)
  | cons f rest ih =>
      obtain ⟨k, v⟩ := f
      rw [set] at mem
      split at mem
      · rcases List.mem_cons.mp mem with same | later
        · exact .inl same
        · exact .inr (List.mem_cons_of_mem _ later)
      · rcases List.mem_cons.mp mem with same | later
        · exact .inr (same ▸ List.mem_cons_self)
        · exact (ih later).imp_right (List.mem_cons_of_mem _)

/-- Assigning to a dictionary leaves a dictionary. -/
theorem plain_set {key : Text} {item : Json} {value : Dict} (plain : Json.Plain (.obj value))
    (inside : Json.Plain item) : Json.Plain (.obj (set key item value)) := by
  obtain ⟨distinct, values⟩ := plain
  refine ⟨?_, (Json.plainFields_iff _).mpr fun g mem => ?_⟩
  · rw [keys_set]
    split
    · exact distinct
    · rename_i absent
      exact distinct.append (List.nodup_singleton key) (by simpa using absent)
  · rcases mem_set mem with rfl | there
    · exact inside
    · exact (Json.plainFields_iff value).mp values g there

theorem plain_update {value items : Dict} (plain : Json.Plain (.obj value))
    (inside : ∀ f ∈ items, Json.Plain f.2) : Json.Plain (.obj (update value items)) := by
  induction items generalizing value with
  | nil => exact plain
  | cons f rest ih =>
      rw [List.forall_mem_cons] at inside
      rw [update, List.foldl_cons]
      exact ih (plain_set plain inside.1) inside.2

theorem lookup_update {items : Dict} (distinct : (items.map (·.1)).Nodup) (value : Dict)
    (key : Text) : (update value items).lookup key = (items.lookup key).or (value.lookup key) := by
  induction items generalizing value with
  | nil => rfl
  | cons f rest ih =>
      rw [List.map_cons, List.nodup_cons] at distinct
      rw [update, List.foldl_cons]
      refine (ih distinct.2 _).trans ?_
      rw [lookup_set, lookup_cons]
      split
      · rename_i same
        have absent : rest.lookup key = none := by
          rw [List.lookup_eq_none_iff]
          intro g mem
          rw [bne_iff_ne]
          rintro here
          exact distinct.1 (by rw [← same, here]; exact List.mem_map_of_mem mem)
        rw [absent]
        rfl
      · rfl

/-- Whether a dictionary has given keys depends on its keys alone. -/
theorem hasKeys_eq (value : Dict) (names : List Text) :
    hasKeys value names = ((value.map (·.1)).all names.contains &&
      names.all fun name => (value.map (·.1)).contains name) := by
  rw [hasKeys, List.all_map]
  rfl

theorem hasKeys_iff {value : Dict} {names : List Text} :
    hasKeys value names = true ↔ ∀ key, key ∈ value.map (·.1) ↔ key ∈ names := by
  rw [hasKeys_eq, Bool.and_eq_true, List.all_eq_true, List.all_eq_true]
  simp only [List.contains_iff_mem]
  constructor
  · intro h key
    exact ⟨h.1 key, h.2 key⟩
  · intro h
    exact ⟨fun key => (h key).mp, fun key => (h key).mpr⟩

theorem keys_filter (value : Dict) (key : Text) :
    (value.filter fun f => f.1 != key).map (·.1) = (value.map (·.1)).filter (· != key) := by
  rw [List.filter_map]
  rfl

/-! ## Checks -/

theorem demand_ok {holds : Bool} {problem : String} {u : Unit} :
    demand holds problem = .ok u ↔ holds = true := by
  cases holds with
  | false => exact ⟨nofun, nofun⟩
  | true => exact ⟨fun _ => rfl, fun _ => rfl⟩

theorem fullmatch_ok {pattern : Text → Bool} {v : Json} {problem : String} {u : Unit} :
    fullmatch pattern v problem = .ok u ↔ ∃ s, v = .str s ∧ pattern s = true := by
  cases v with
  | str s => simp [fullmatch, demand_ok]
  | _ => simp [fullmatch]

theorem oneOf_ok {names : List Text} {v : Json} {problem : String} {u : Unit} :
    oneOf names v problem = .ok u ↔ ∃ s, v = .str s ∧ s ∈ names := by
  cases v with
  | str s => simp [oneOf, demand_ok]
  | _ => simp [oneOf, demand_ok]

theorem allowlisted_ok {policies : List (Text × ModulePolicy)} {v : Json} {policy : ModulePolicy} :
    allowlisted policies v = .ok policy ↔
      ∃ module_id, v = .str module_id ∧ policies.lookup module_id = some policy := by
  cases v with
  | str module_id => cases found : policies.lookup module_id <;> simp [allowlisted, found]
  | _ => simp [allowlisted]

theorem isObject_iff {v : Json} : isObject v = true ↔ ∃ fields, v = .obj fields := by
  cases v <;> simp [isObject]

theorem isTrue_iff {v : Json} : isTrue v = true ↔ v = .bool true := by
  cases v <;> simp [isTrue]

theorem validateEnvironment_unit {lib : Library} {environment_policy value : Dict} :
    (∃ u, validateEnvironment lib environment_policy value = .ok u) ↔
      validateEnvironment lib environment_policy value = .ok () :=
  ⟨fun ⟨(), h⟩ => h, fun h => ⟨(), h⟩⟩

/-! ## Candidates -/

structure EnvironmentAccepted (lib : Library) (environment_policy value environment : Dict) :
    Prop where
  policy : meetsPolicy environment_policy environment = true
  builder_commit : Json.equal (get environment "builder_commit") (get value "builder_commit") = true
  host_commit : COMMIT_RE (str lib ((environment.lookup (text "host_commit")).getD (.str []))) = true

/-- The conditions under which a candidate passes -/
structure Accepted (lib : Library) (config : Document) (environment_policy value : Dict) :
    Prop where
  keys : hasKeys (value.filter fun f => f.1 != text "build_environment") REQUIRED = true
  allowed : ∃ builder_version policies module_id policy,
    load_policies config = .ok (builder_version, policies) ∧
      get value "module_id" = .str module_id ∧ policies.lookup module_id = some policy ∧
        get value "source_repository" = .str policy.source_url
  classification : get value "classification" = .str (text "first-party")
  schema_version : Json.equal (get value "schema_version") (.int 1) = true
  builder_version : Json.equal (get value "builder_version") (.int 1) = true
  bundle_format_version : Json.equal (get value "bundle_format_version") (.int 1) = true
  version : ∃ version, get value "version" = .str version ∧ (SEMVER_RE version).isSome = true
  source_tag : get value "source_tag" = .str (tagOf lib (get value "version"))
  source_commit : ∃ commit, get value "source_commit" = .str commit ∧ COMMIT_RE commit = true
  builder_commit : ∃ commit, get value "builder_commit" = .str commit ∧
    (commit == text "unknown" || COMMIT_RE commit) = true
  bundle_sha256 : ∃ digest, get value "bundle_sha256" = .str digest ∧ SHA256_RE digest = true
  reproducible : get value "reproducible" = .bool true
  host_contract : get value "host_contract" = .str (text "passed")
  registry_status : ∃ status, get value "registry_status" = .str status ∧
    status ∈ [text "new", text "already-registered"]
  planned_channel : ∃ channel, get value "planned_channel" = .str channel ∧
    channel ∈ [text "stable", text "beta", text "nightly"]
  requires : ∃ requires, get value "requires" = .obj requires
  environment : validateEnvironment lib environment_policy value = .ok ()
  artifact_candidate : ∃ artifact, get value "artifact_candidate" = .str artifact ∧
    ARTIFACT_RE artifact = true

theorem validate_candidate_ok {lib : Library} {config : Document} {environment_policy value : Dict}
    {result : Dict} :
    validate_candidate lib config environment_policy (.obj value) = .ok result ↔
      result = value ∧ Accepted lib config environment_policy value := by
  simp only [validate_candidate, bind_ok, demand_ok, fullmatch_ok, oneOf_ok, allowlisted_ok,
    isObject_iff, isTrue_iff, Json.equal_str, Bool.and_eq_true, Except.ok.injEq,
    Prod.exists, exists_const, exists_and_right, validateEnvironment_unit]
  constructor
  · rintro ⟨keys, builder_version, policies, loaded, policy, ⟨module_id, named, known⟩, source,
      classification, ⟨schema_version, builder⟩, format, version, tag, commit, builder_commit,
      digest, ⟨reproducible, host_contract⟩, status, channel, requires, environment, artifact, rfl⟩
    exact ⟨rfl, keys, ⟨builder_version, policies, module_id, policy, loaded, named, known, source⟩,
      classification, schema_version, builder, format, version, tag, commit, builder_commit, digest,
      reproducible, host_contract, status, channel, requires, environment, artifact⟩
  · rintro ⟨rfl, h⟩
    obtain ⟨builder_version, policies, module_id, policy, loaded, named, known, source⟩ := h.allowed
    exact ⟨h.keys, builder_version, policies, loaded, policy, ⟨module_id, named, known⟩, source,
      h.classification, ⟨h.schema_version, h.builder_version⟩, h.bundle_format_version, h.version,
      h.source_tag, h.source_commit, h.builder_commit, h.bundle_sha256,
      ⟨h.reproducible, h.host_contract⟩, h.registry_status, h.planned_channel, h.requires,
      h.environment, h.artifact_candidate, rfl⟩

theorem validateEnvironment_ok {lib : Library} {environment_policy value environment : Dict}
    (recorded : value.lookup (text "build_environment") = some (.obj environment)) :
    validateEnvironment lib environment_policy value = .ok () ↔
      EnvironmentAccepted lib environment_policy value environment := by
  simp only [validateEnvironment, recorded, check_ok, demand_ok]
  exact ⟨fun ⟨policy, builder_commit, host_commit⟩ => { policy, builder_commit, host_commit },
    fun h => ⟨h.policy, h.builder_commit, h.host_commit⟩⟩

end PackageRegistry.Builder
