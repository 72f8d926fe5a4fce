import PackageRegistry.Database.Modules
import PackageRegistry.Promotion.Binding
import PackageRegistry.Registry.Republished
import PackageRegistry.Registry.Reread

/-! # The boundary of v1

What `project_v1` reads, when `validate_v1_representability` passes, and what makes it pass.
-/

namespace PackageRegistry.Database

open Transactions Relational Checks
open PackageRegistry.Promotion (mapError_ok)

/-! ## Projections -/

/-- What three reads of `project_v1` come to -/
def assemble (a b c : Db) : List Module :=
  let modules := module_candidates a none
  let ids := modules.map (·.1)
  (sortBy (·.1) modules).map (projected
    (rows b .module_dependencies fun d => ids.contains d.owner_module_id) (orderedVersions c ids))

/-- The modules of v1 -/
def projection (db : Db) : List Module := assemble db db db

theorem candidates_distinct (db : Db) : ((module_candidates db none).map (·.1)).Nodup := by
  have keys := List.pairwise_map.mp (Table.nodup_keys (db.table .modules))
  refine List.pairwise_map.mpr (List.pairwise_filterMap.mpr (keys.imp ?_))
  intro first second different found mem found' mem' same
  have named : ∀ {module : Text × ModuleRow} {found : Text × ModuleRow × PublisherRow},
      found ∈ (if (none : Option Text).all (· == module.1) &&
          (db.table .module_versions).toList.any (fun v => v.2.module_id == module.1) then
        (db.row .publishers module.2.publisher_id).map fun publisher =>
          (module.1, module.2, publisher)
      else none) → found.1 = module.1 := by
    intro module found mem
    rw [Option.mem_def, Option.ite_none_right_eq_some, Option.map_eq_some_iff] at mem
    obtain ⟨-, publisher, -, rfl⟩ := mem
    rfl
  exact different ((named mem).symm.trans (same.trans (named mem')))

section

variable {a b c : Db}

theorem mem_assemble {module : Module} : module ∈ assemble a b c ↔ ∃ id m p,
    (id, m, p) ∈ module_candidates a none ∧
      module = projected (dependenciesOf b id) (versionsOf c id) (id, m, p) := by
  simp only [assemble, List.mem_map, StableSort.mem_sortBy, Prod.exists]
  constructor
  · rintro ⟨id, m, p, mem, rfl⟩
    exact ⟨id, m, p, mem, projected_eq (List.mem_map_of_mem mem) m p⟩
  · rintro ⟨id, m, p, mem, rfl⟩
    exact ⟨id, m, p, mem, projected_eq (List.mem_map_of_mem mem) m p⟩

theorem assemble_ids : (assemble a b c).map (·.id) =
    (sortBy (·.1) (module_candidates a none)).map (·.1) := by
  rw [assemble, List.map_map]
  rfl

theorem assemble_distinct : ((assemble a b c).map (·.id)).Nodup := by
  rw [assemble_ids]
  exact ((StableSort.perm_sortBy _ _).map _).nodup_iff.mpr (candidates_distinct a)

theorem assemble_ascending : StableSort.Ascending (fun m : Module => m.id) (assemble a b c) := by
  have ascending := StableSort.ascending_sortBy (·.1) (module_candidates a none)
  refine List.pairwise_map.mp ?_
  rw [assemble_ids]
  exact List.pairwise_map.mpr ascending

end

theorem mem_projection {db : Db} {module : Module} : module ∈ projection db ↔ ∃ id m p,
    (id, m, p) ∈ module_candidates db none ∧ module = moduleOf db id m p :=
  mem_assemble

/-! ## The check -/

section

variable {lib : Library} {modules : List Module}

theorem validateProjected_ok {module : Module} :
    validateProjected lib module = .ok () ↔ ValidModule lib module := by
  rw [← validate_toDict (text "Registry v1 DB projection")]
  simp only [validateProjected, bind_ok, mapError_ok, and_true]

theorem get_channelsByModule (distinct : (modules.map (·.id)).Nodup) {id : Text}
    {channels : Table Channel Target} :
    (channelsByModule (indexOf modules))[id]? = some channels ↔
      ∃ module ∈ modules, module.id = id ∧ (entryOf module).channels = channels := by
  have keys : (((indexOf modules).modules.map fun entry => (entry.id, entry.channels)).map
      (·.1)).Nodup := by
    rw [List.map_map, indexOf, List.map_map]
    exact ((StableSort.perm_sortBy _ modules).map _).nodup_iff.mpr distinct
  rw [channelsByModule, Table.get_ofList keys]
  simp only [indexOf, List.map_map, List.mem_map, StableSort.mem_sortBy, Function.comp_apply,
    Prod.mk.injEq]
  rfl

/-- The index is the one of valid modules, and offers what the pointers offer. -/
theorem representable_iff (distinct : (modules.map (·.id)).Nodup)
    {channel_targets : Table Text (Table Channel Target)} {index : Index} :
    validate_v1_representability lib modules channel_targets = .ok index ↔
      (∀ module ∈ modules, ValidModule lib module) ∧
        channelsByModule (indexOf modules) = channel_targets ∧ index = indexOf modules := by
  simp only [validate_v1_representability, check_ok, forM_ok, validateProjected_ok]
  refine and_congr_right fun valid => ?_
  rw [build_index_ok valid]
  simp only [Except.mapError, ok_bind, ne_eq, guard_ok error_ok, not_not, Except.ok.injEq]
  refine and_congr_right fun same => ?_
  have offers : ∀ entry ∈ (indexOf modules).modules,
      { entry with channels := (channel_targets[entry.id]?).getD ∅ } = entry := by
    intro entry mem
    obtain ⟨module, inModules, rfl⟩ := List.mem_map.mp mem
    have there : (channelsByModule (indexOf modules))[module.id]? = some (entryOf module).channels :=
      (get_channelsByModule distinct).mpr ⟨module, (StableSort.mem_sortBy _).mp inModules, rfl, rfl⟩
    have target : channel_targets[(entryOf module).id]? = some (entryOf module).channels := by
      rw [← same]
      exact there
    rw [target]
    rfl
  rw [List.map_congr_left offers, List.map_id']
  exact eq_comm

end

/-- Valid modules are told apart by their text. -/
theorem canonicalText_inj {lib : Library} {modules expected : List Module}
    (valid : ∀ module ∈ expected, ValidModule lib module)
    (same : canonicalText modules = canonicalText expected) : modules = expected := by
  have plain : ∀ l : List Module, Json.Plain (.arr (l.map fun module => .obj module.toDict)) := by
    intro l
    rw [Json.Plain, Json.plainItems_iff]
    intro v mem
    obtain ⟨module, -, rfl⟩ := List.mem_map.mp mem
    exact plain_module module
  have read : ∀ l : List Module, Json.loads (canonicalText l) =
      some (.arr (l.map fun module => .obj module.toDict)) := by
    intro l
    rw [canonicalText, Json.loads_canonical_json (plain l), Json.sortKeys_arr]
    intro v mem
    obtain ⟨module, -, rfl⟩ := List.mem_map.mp mem
    exact sortKeys_module module
  have dicts := read modules
  rw [same, read expected, Option.some.injEq, Json.arr.injEq] at dicts
  clear read same
  induction expected generalizing modules with
  | nil => exact List.map_eq_nil_iff.mp dicts.symm
  | cons first rest ih =>
      obtain ⟨valid, later⟩ := List.forall_mem_cons.mp valid
      cases modules with
      | nil => cases dicts
      | cons module others =>
          rw [List.map_cons, List.map_cons, List.cons.injEq, Json.obj.injEq] at dicts
          have accepted := validate_module_complete valid []
          rw [dicts.1] at accepted
          rw [module_reread accepted, ih later dicts.2]

/-! ## What makes it pass -/

/-- A module whose versions are valid and in their order, and whose pointers are at what v1
    selects -/
structure Sound (lib : Library) (db : Db) (id : Text) (m : ModuleRow) (p : PublisherRow) : Prop where
  valid : ValidModule lib (moduleOf db id m p)
  targets : (channelTargets db none)[id]? = some (entryOf (moduleOf db id m p)).channels
  dense : (versionsOf db id).map (·.historical_order) = List.range (versionsOf db id).length

structure Consistent (lib : Library) (db : Db) : Prop where
  linked : Linked db
  sound : ∀ id m p, db.row .modules id = some m → db.row .publishers m.publisher_id = some p →
    Sound lib db id m p

section

variable {lib : Library} {id : Text} {m : ModuleRow} {p : PublisherRow} {x y db : Db}

theorem Sound.transfer (h : Sound lib x id m p) (same : SameModule id x y) : Sound lib y id m p where
  valid := by
    rw [← same.moduleOf]
    exact h.valid
  targets := by
    rw [← same.targets, ← same.moduleOf]
    exact h.targets
  dense := by
    rw [← same.versionsOf]
    exact h.dense

theorem Sound.published (h : Sound lib db id m p) :
    ∃ key v, db.row .module_versions key = some v ∧ v.module_id = id := by
  obtain ⟨release, mem⟩ := List.exists_mem_of_ne_nil _ h.valid.nonempty
  simp only [moduleOf, projected, List.mem_map, List.mem_filter] at mem
  obtain ⟨v, ⟨mem, own⟩, -⟩ := mem
  obtain ⟨⟨key, here⟩, -, -⟩ := mem_versionsOf.mp mem
  exact ⟨key, v, here, beq_iff_eq.mp own⟩

/-- Each read of a locked module has shown it as it is. -/
theorem sound_of_representable {a b c d : Db} {index : Index} (inA : SameModule id a db)
    (inB : SameModule id b db) (inC : SameModule id c db) (inD : SameModule id d db)
    (here : db.row .modules id = some m) (there : db.row .publishers m.publisher_id = some p)
    (published : ∃ version, (db.row .module_versions (versionId id version)).isSome = true)
    (accepted : validate_v1_representability lib (assemble a b c) (channelTargets d none) =
      .ok index)
    (dense : (versionsOf db id).map (·.historical_order) = List.range (versionsOf db id).length) :
    Sound lib db id m p := by
  have module : a.row .modules id = some m := inA.module.trans here
  have publisher : a.row .publishers m.publisher_id = some p := by
    have refers := inA.linked.refers .modules id m module (.publishers, m.publisher_id)
      (by simp [references])
    obtain ⟨p', before⟩ := Option.isSome_iff_exists.mp refers
    rw [inA.publishers _ p' before, Option.some.injEq] at there
    rw [before, there]
  obtain ⟨version, inModule⟩ := published
  have before : a.row .module_versions (versionId id version) =
      db.row .module_versions (versionId id version) := inA.owned .module_versions trivial version
  obtain ⟨v, found⟩ := Option.isSome_iff_exists.mp (before ▸ inModule)
  have keyed := Text.pair_inj.mp (inA.linked.keyed .module_versions _ v found)
  have mem : moduleOf db id m p ∈ assemble a b c := by
    refine mem_assemble.mpr ⟨id, m, p, mem_candidates.mpr ⟨module, publisher, _, v, found,
      keyed.1.symm⟩, ?_⟩
    rw [inB.dependenciesOf, inC.versionsOf]
    rfl
  obtain ⟨valid, targets, -⟩ := (representable_iff assemble_distinct).mp accepted
  refine ⟨valid _ mem, ?_, dense⟩
  rw [← inD.targets, ← targets]
  exact (get_channelsByModule assemble_distinct).mpr ⟨_, mem, rfl, rfl⟩

/-- Every module is projected. -/
theorem Consistent.candidate (h : Consistent lib db) (here : db.row .modules id = some m) :
    ∃ p, (id, m, p) ∈ module_candidates db none := by
  have publisher := h.linked.refers .modules id m here (.publishers, m.publisher_id)
    (by simp [references])
  obtain ⟨p, there⟩ := Option.isSome_iff_exists.mp publisher
  exact ⟨p, mem_candidates.mpr ⟨here, there, (h.sound id m p here there).published⟩⟩

theorem Consistent.projected (h : Consistent lib db) {module : Module} :
    module ∈ projection db ↔ ∃ id m p, db.row .modules id = some m ∧
      db.row .publishers m.publisher_id = some p ∧ module = moduleOf db id m p := by
  rw [mem_projection]
  constructor
  · rintro ⟨id, m, p, mem, rfl⟩
    obtain ⟨here, there, -⟩ := mem_candidates.mp mem
    exact ⟨id, m, p, here, there, rfl⟩
  · rintro ⟨id, m, p, here, there, rfl⟩
    exact ⟨id, m, p, mem_candidates.mpr ⟨here, there, (h.sound id m p here there).published⟩, rfl⟩

theorem Consistent.valid (h : Consistent lib db) : ∀ module ∈ projection db, ValidModule lib module := by
  intro module mem
  obtain ⟨id, m, p, here, there, rfl⟩ := h.projected.mp mem
  exact (h.sound id m p here there).valid

/-- A module that is not there has no pointers. -/
theorem Linked.no_targets (h : Linked db) (absent : db.row .modules id = none) :
    (channelTargets db none)[id]? = none := by
  have empty : pointersOf db id = [] := by
    rw [List.eq_nil_iff_forall_not_mem]
    intro c mem
    obtain ⟨⟨key, here⟩, own⟩ := mem_rows.mp mem
    obtain rfl := beq_iff_eq.mp own
    have version := h.refers .module_channels key c here
      (.module_versions, versionId c.module_id c.version) (by simp [references])
    obtain ⟨v, there⟩ := Option.isSome_iff_exists.mp version
    have keyed := Text.pair_inj.mp (h.keyed .module_versions _ v there)
    have module := h.refers .module_versions _ v there (.modules, v.module_id) (by simp [references])
    rw [← keyed.1, absent] at module
    cases module
  rw [get_channelTargets, empty]
  rfl

/-- The registry can be served as v1. -/
theorem Consistent.representable (h : Consistent lib db) :
    validate_v1_representability lib (projection db) (channelTargets db none) =
      .ok (indexOf (projection db)) := by
  refine (representable_iff assemble_distinct).mpr ⟨h.valid, Table.ext fun id => ?_, rfl⟩
  refine Option.ext fun channels => ?_
  rw [get_channelsByModule assemble_distinct]
  constructor
  · rintro ⟨module, mem, rfl, rfl⟩
    obtain ⟨id, m, p, here, there, rfl⟩ := h.projected.mp mem
    exact (h.sound id m p here there).targets
  · intro target
    cases here : db.row .modules id with
    | none =>
        rw [h.linked.no_targets here] at target
        cases target
    | some m =>
        obtain ⟨p, mem⟩ := h.candidate here
        have there := (mem_candidates.mp mem).2.1
        refine ⟨moduleOf db id m p, h.projected.mpr ⟨id, m, p, here, there, rfl⟩, rfl, ?_⟩
        have same := (h.sound id m p here there).targets
        rw [target, Option.some.injEq] at same
        exact same.symm

end

end PackageRegistry.Database
