import PackageRegistry.Database.Boundary
import PackageRegistry.Lib.Alone

/-! # Serving v1 from the database

`RegistryCompatibilityService` of `web/backend/app/api/registry_compatibility.py`. Its
transactions read one snapshot, so each runs as if alone.
-/

namespace PackageRegistry.Database

open Transactions Relational Checks

namespace RegistryCompatibilityService

variable (s : Settings)

def index : Program Index := do
  let modules ← project_v1 none
  let targets ← channel_targets none
  match validate_v1_representability s.lib modules targets with
  | .ok index => pure index
  | .error e => raise e

def module (module_id : Text) : Program Module := do
  let _ ← checked (_canonical_id (.str module_id) (text "module ID"))
  match ← project_v1 (some module_id) with
  | [] => raise .notFound
  | first :: rest => do
      let targets ← channel_targets (some [module_id])
      match validate_v1_representability s.lib (first :: rest) targets with
      | .ok _ => pure first
      | .error e => raise e

end RegistryCompatibilityService

/-! ## Reading alone -/

theorem exec_project_v1 (db : Db) :
    exec Database.apply (project_v1 none) db = .ok (projection db, db) := rfl

theorem candidates_some (db : Db) (id : Text) :
    module_candidates db (some id) =
      (module_candidates db none).filter fun candidate => candidate.1 == id := by
  rw [module_candidates, module_candidates, List.filter_filterMap]
  refine List.filterMap_congr fun module _ => ?_
  generalize (db.table .module_versions).toList.any (fun v => v.2.module_id == module.1) = published
  have named : (some id).all (· == module.1) = (module.1 == id) := Bool.beq_comm
  have any : (none : Option Text).all (· == module.1) = true := rfl
  rw [named, any, Bool.true_and]
  cases db.row .publishers module.2.publisher_id <;> cases published <;>
    by_cases own : module.1 = id <;> simp [own, Option.filter_some]

theorem filter_key {α κ : Type} [BEq κ] [LawfulBEq κ] {key : α → κ} {l : List α} {a : α}
    (distinct : (l.map key).Nodup) (mem : a ∈ l) : l.filter (fun b => key b == key a) = [a] := by
  have nodup : l.Nodup := .of_map _ distinct
  refine List.perm_singleton.mp ((List.perm_ext_iff_of_nodup (nodup.filter _)
    (List.nodup_singleton a)).mpr fun b => ?_)
  rw [List.mem_filter, List.mem_singleton, beq_iff_eq]
  constructor
  · rintro ⟨memB, same⟩
    exact List.inj_on_of_nodup_map distinct memB mem same
  · rintro rfl
    exact ⟨mem, rfl⟩

section

variable {db : Db} {id : Text}

/-- The module with this id, if it is published -/
theorem exec_project_one {m : ModuleRow} {p : PublisherRow}
    (mem : (id, m, p) ∈ module_candidates db none) :
    exec Database.apply (project_v1 (some id)) db = .ok ([moduleOf db id m p], db) := by
  have one : module_candidates db (some id) = [(id, m, p)] := by
    rw [candidates_some]
    exact filter_key (candidates_distinct db) mem
  have read : exec Database.apply (project_v1 (some id)) db =
      .ok ((sortBy (·.1) (module_candidates db (some id))).map (projected
        (rows db .module_dependencies fun d =>
          ((module_candidates db (some id)).map (·.1)).contains d.owner_module_id)
        (orderedVersions db ((module_candidates db (some id)).map (·.1)))), db) := rfl
  rw [read, one]
  refine congrArg (fun module => Except.ok ([module], db)) ?_
  exact projected_eq (List.mem_singleton_self id) m p

theorem exec_project_none (absent : ∀ m p, (id, m, p) ∉ module_candidates db none) :
    exec Database.apply (project_v1 (some id)) db = .ok ([], db) := by
  have none_ : module_candidates db (some id) = [] := by
    rw [candidates_some, List.filter_eq_nil_iff]
    rintro ⟨id', m, p⟩ mem same
    obtain rfl := beq_iff_eq.mp same
    exact absent m p mem
  have read : exec Database.apply (project_v1 (some id)) db =
      .ok ((sortBy (·.1) (module_candidates db (some id))).map (projected
        (rows db .module_dependencies fun d =>
          ((module_candidates db (some id)).map (·.1)).contains d.owner_module_id)
        (orderedVersions db ((module_candidates db (some id)).map (·.1)))), db) := rfl
  rw [read, none_]
  rfl

/-! ## What is served -/

/-- These modules are what v1 serves: all of them in the index, and each under its id. -/
structure Serves (s : Settings) (db : Db) (modules : List Module) : Prop where
  index : ∃ index, build_index s.lib modules = .ok index ∧
    exec Database.apply (RegistryCompatibilityService.index s) db = .ok (index, db)
  module : ∀ id module, exec Database.apply (RegistryCompatibilityService.module s id) db =
    .ok (module, db) ↔ module ∈ modules ∧ module.id = id
  missing : ∀ id e, exec Database.apply (RegistryCompatibilityService.module s id) db = .error e →
    (∀ module ∈ modules, module.id ≠ id) ∧
      (e = .error .notFound ∨ ∃ invalid, e = .error (.registry invalid) ∧ ¬IsId id)

theorem Sound.representable {lib : Library} {m : ModuleRow} {p : PublisherRow}
    (h : Sound lib db id m p) : validate_v1_representability lib [moduleOf db id m p]
      (channelTargets db (some [id])) = .ok (indexOf [moduleOf db id m p]) := by
  have distinct : ([moduleOf db id m p].map (·.id)).Nodup := List.nodup_singleton _
  refine (representable_iff distinct).mpr ⟨?_, Table.ext fun id' => ?_, rfl⟩
  · simpa using h.valid
  · refine Option.ext fun channels => ?_
    rw [get_channelsByModule distinct, get_channelTargets_some, h.targets]
    have named : (moduleOf db id m p).id = id := rfl
    simp [named]

theorem exec_module_found {s : Settings} (valid : IsId id) {m : ModuleRow} {p : PublisherRow}
    (mem : (id, m, p) ∈ module_candidates db none) (sound : Sound s.lib db id m p) :
    exec Database.apply (RegistryCompatibilityService.module s id) db =
      .ok (moduleOf db id m p, db) := by
  rw [RegistryCompatibilityService.module, canonical_id_ok.mpr ⟨rfl, valid⟩, Tx.bind_eq,
    exec_then rfl, Tx.bind_eq, exec_then (exec_project_one mem)]
  dsimp only
  rw [Tx.bind_eq, exec_then rfl, sound.representable]
  rfl

theorem exec_module_missing {s : Settings} (absent : ∀ m p, (id, m, p) ∉ module_candidates db none) :
    ∃ e, exec Database.apply (RegistryCompatibilityService.module s id) db = .error e ∧
      (e = .error .notFound ∨ ∃ invalid, e = .error (.registry invalid) ∧ ¬IsId id) := by
  rw [RegistryCompatibilityService.module, Tx.bind_eq]
  cases checks : _canonical_id (.str id) (text "module ID") with
  | error e =>
      refine ⟨_, exec_raised rfl, .inr ⟨e, rfl, fun valid => ?_⟩⟩
      rw [canonical_id_ok.mpr ⟨rfl, valid⟩] at checks
      cases checks
  | ok id' =>
      rw [exec_then rfl, Tx.bind_eq, exec_then (exec_project_none absent)]
      exact ⟨_, rfl, .inl rfl⟩

theorem Consistent.serves {s : Settings} (h : Consistent s.lib db) : Serves s db (projection db) := by
  -- a module is found under its id, or there is none
  have found : ∀ id, (∃ m p, moduleOf db id m p ∈ projection db ∧
      exec Database.apply (RegistryCompatibilityService.module s id) db =
        .ok (moduleOf db id m p, db)) ∨
      ((∀ module ∈ projection db, module.id ≠ id) ∧
        ∃ e, exec Database.apply (RegistryCompatibilityService.module s id) db = .error e ∧
          (e = .error .notFound ∨ ∃ invalid, e = .error (.registry invalid) ∧ ¬IsId id)) := by
    intro id
    by_cases there : ∃ m p, (id, m, p) ∈ module_candidates db none
    · obtain ⟨m, p, mem⟩ := there
      obtain ⟨here, publisher, -⟩ := mem_candidates.mp mem
      have published : moduleOf db id m p ∈ projection db := mem_projection.mpr ⟨id, m, p, mem, rfl⟩
      exact .inl ⟨m, p, published, exec_module_found (h.valid _ published).id mem
        (h.sound id m p here publisher)⟩
    · refine .inr ⟨?_, exec_module_missing fun m p mem => there ⟨m, p, mem⟩⟩
      rintro module mem rfl
      obtain ⟨_, m, p, candidate, rfl⟩ := mem_projection.mp mem
      exact there ⟨m, p, candidate⟩
  refine ⟨⟨_, build_index_ok h.valid, ?_⟩, fun id module => ?_, fun id e refused => ?_⟩
  · have read : exec Database.apply (RegistryCompatibilityService.index s) db =
        exec Database.apply (match validate_v1_representability s.lib (projection db)
          (channelTargets db none) with
          | .ok index => pure index
          | .error e => raise e) db := rfl
    rw [read, h.representable]
    rfl
  · rcases found id with ⟨m, p, published, served⟩ | ⟨absent, e, refused, -⟩
    · rw [served, Except.ok.injEq, Prod.mk.injEq]
      constructor
      · rintro ⟨rfl, -⟩
        exact ⟨published, rfl⟩
      · rintro ⟨mem, rfl⟩
        exact ⟨List.inj_on_of_nodup_map assemble_distinct published mem rfl, rfl⟩
    · rw [refused]
      refine ⟨fun h => (by cases h), fun ⟨mem, named⟩ => (absent module mem named).elim⟩
  · rcases found id with ⟨m, p, published, served⟩ | ⟨absent, e', refused', reason⟩
    · rw [served] at refused
      cases refused
    · rw [refused', Except.error.injEq] at refused
      exact ⟨absent, refused ▸ reason⟩

end

end PackageRegistry.Database
