import PackageRegistry.Database.Rules
import PackageRegistry.Lib.StableSort

/-! # What is read of one module

The projection reads all modules at once, and what it makes of one of them depends on the rows of
this module only.
-/

namespace PackageRegistry.Database

open Transactions Relational

/-! ## Rows -/

theorem rows_congr {x y : Db} {T : TableName} {p q : Row T → Bool}
    (same : ∀ key row, x.row T key = some row ∧ p row = true ↔
      y.row T key = some row ∧ q row = true) : rows x T p = rows y T q := by
  have listed : (x.table T).toList.filter (fun row => p row.2) =
      (y.table T).toList.filter fun row => q row.2 := Table.filter_congr same
  rw [rows, rows, listed]

theorem mem_rows {db : Db} {T : TableName} {p : Row T → Bool} {row : Row T} :
    row ∈ rows db T p ↔ (∃ key, db.row T key = some row) ∧ p row = true := by
  simp only [rows, List.mem_map, List.mem_filter, Prod.exists, Table.mem_toList, Database.row]
  constructor
  · rintro ⟨key, row, ⟨here, matches_⟩, rfl⟩
    exact ⟨⟨key, here⟩, matches_⟩
  · rintro ⟨⟨key, here⟩, matches_⟩
    exact ⟨key, row, ⟨here, matches_⟩, rfl⟩

theorem filter_rows {db : Db} {T : TableName} (p q : Row T → Bool) :
    (rows db T p).filter q = rows db T fun row => q row && p row := by
  rw [rows, rows, List.filter_map, List.filter_filter]
  rfl

theorem rows_pred {db : Db} {T : TableName} {p q : Row T → Bool} (same : ∀ row, p row = q row) :
    rows db T p = rows db T q := by
  rw [funext same]

/-! ## A module -/

/-- The versions of a module, in their order -/
def versionsOf (db : Db) (id : Text) : List ModuleVersion := orderedVersions db [id]

def dependenciesOf (db : Db) (id : Text) : List ModuleDependency :=
  rows db .module_dependencies fun d => d.owner_module_id == id

def pointersOf (db : Db) (id : Text) : List ModuleChannel :=
  rows db .module_channels fun c => c.module_id == id

def moduleOf (db : Db) (id : Text) (module : ModuleRow) (publisher : PublisherRow) : Module :=
  projected (dependenciesOf db id) (versionsOf db id) (id, module, publisher)

theorem mem_versionsOf {db : Db} {id : Text} {v : ModuleVersion} :
    v ∈ versionsOf db id ↔ (∃ key, db.row .module_versions key = some v) ∧ v.module_id = id ∧
      (db.row .artifacts v.artifact_id).isSome = true := by
  rw [versionsOf, orderedVersions, StableSort.mem_sortBy, mem_rows, Bool.and_eq_true,
    List.contains_iff_mem, List.mem_singleton]

theorem orderedVersions_filter {db : Db} {ids : List Text} {id : Text} (mem : id ∈ ids) :
    (orderedVersions db ids).filter (fun v => v.module_id == id) = versionsOf db id := by
  rw [versionsOf, orderedVersions, orderedVersions, StableSort.filter_sortBy,
    filter_rows (T := .module_versions)]
  congr 1
  refine rows_pred fun v => ?_
  by_cases same : v.module_id = id
  · have known : ids.contains v.module_id = true := List.contains_iff_mem.mpr (same ▸ mem)
    have self : [id].contains v.module_id = true := by simp [same]
    simp only [known, self, beq_iff_eq.mpr same, Bool.true_and]
  · have other : (v.module_id == id) = false := by simpa using same
    have other' : [id].contains v.module_id = false := by simpa using same
    simp only [other, other', Bool.false_and]

theorem filter_versionsOf (db : Db) (id : Text) :
    (versionsOf db id).filter (fun v => v.module_id == id) = versionsOf db id :=
  orderedVersions_filter (List.mem_singleton_self id)

theorem dependencies_filter {db : Db} {ids : List Text} {id : Text} (mem : id ∈ ids)
    (version : Text) :
    (rows db .module_dependencies fun d => ids.contains d.owner_module_id).filter
        (ownedBy id version) = (dependenciesOf db id).filter (ownedBy id version) := by
  rw [dependenciesOf, filter_rows (T := .module_dependencies),
    filter_rows (T := .module_dependencies)]
  refine rows_pred fun d => ?_
  by_cases same : d.owner_module_id = id
  · have known : ids.contains d.owner_module_id = true := List.contains_iff_mem.mpr (same ▸ mem)
    simp only [known, beq_iff_eq.mpr same]
  · have other : (d.owner_module_id == id) = false := by simpa using same
    simp only [ownedBy, other, Bool.false_and]

/-- Of all that is read, only the rows of the module count. -/
theorem projected_eq {b c : Db} {ids : List Text} {id : Text} (mem : id ∈ ids) (module : ModuleRow)
    (publisher : PublisherRow) :
    projected (rows b .module_dependencies fun d => ids.contains d.owner_module_id)
        (orderedVersions c ids) (id, module, publisher) =
      projected (dependenciesOf b id) (versionsOf c id) (id, module, publisher) := by
  have releases : ∀ v ∈ versionsOf c id,
      releaseOf v ((rows b .module_dependencies fun d => ids.contains d.owner_module_id).filter
        (ownedBy v.module_id v.version)) =
      releaseOf v ((dependenciesOf b id).filter (ownedBy v.module_id v.version)) := by
    intro v inModule
    rw [(mem_versionsOf.mp inModule).2.1, dependencies_filter mem]
  simp only [projected, orderedVersions_filter mem, filter_versionsOf]
  rw [List.map_congr_left releases]

theorem versions_moduleOf (db : Db) (id : Text) (m : ModuleRow) (p : PublisherRow) :
    (moduleOf db id m p).versions = (versionsOf db id).map fun v =>
      releaseOf v ((dependenciesOf db id).filter (ownedBy v.module_id v.version)) := by
  rw [moduleOf, projected]
  exact congrArg _ (filter_versionsOf db id)

/-! ## Targets -/

theorem mem_candidates {db : Db} {id : Text} {m : ModuleRow} {p : PublisherRow} :
    (id, m, p) ∈ module_candidates db none ↔ db.row .modules id = some m ∧
      db.row .publishers m.publisher_id = some p ∧
      ∃ key v, db.row .module_versions key = some v ∧ v.module_id = id := by
  simp only [module_candidates, List.mem_filterMap, Option.all_none, Bool.true_and,
    Option.ite_none_right_eq_some, Option.map_eq_some_iff, List.any_eq_true, Prod.exists,
    Table.mem_toList, beq_iff_eq, Prod.mk.injEq]
  constructor
  · rintro ⟨id, m, here, ⟨key, v, version, rfl⟩, p, publisher, rfl, rfl, rfl⟩
    exact ⟨here, publisher, key, v, version, rfl⟩
  · rintro ⟨here, publisher, key, v, version, rfl⟩
    exact ⟨_, m, here, ⟨key, v, version, rfl⟩, p, publisher, rfl, rfl, rfl⟩

def addPointer (db : Db) (channels : Option (Table Channel Target)) (pointer : ModuleChannel) :
    Option (Table Channel Target) :=
  match targetOf db pointer with
  | none => channels
  | some target => some ((channels.getD ∅).insert pointer.channel target)

theorem get_foldl_pointers (db : Db) (id : Text) (pointers : List ModuleChannel)
    (result : Table Text (Table Channel Target)) :
    (pointers.foldl (fun result pointer =>
      match targetOf db pointer with
      | none => result
      | some target => result.alter pointer.module_id fun channels =>
          some ((channels.getD ∅).insert pointer.channel target)) result)[id]? =
    (pointers.filter fun c => c.module_id == id).foldl (addPointer db) result[id]? := by
  induction pointers generalizing result with
  | nil => rfl
  | cons pointer rest ih =>
      rw [List.foldl_cons, ih]
      by_cases own : pointer.module_id = id
      · rw [List.filter_cons_of_pos (by simpa using own), List.foldl_cons, addPointer]
        cases targetOf db pointer with
        | none => rfl
        | some target =>
            simp only [Std.ExtTreeMap.getElem?_alter, Std.LawfulEqCmp.compare_eq_iff_eq, own,
              if_true]
      · rw [List.filter_cons_of_neg (by simpa using own)]
        cases targetOf db pointer with
        | none => rfl
        | some target =>
            simp only [Std.ExtTreeMap.getElem?_alter, Std.LawfulEqCmp.compare_eq_iff_eq, own,
              if_false]

/-- The channels of a module come from its own pointers. -/
theorem get_channelTargets (db : Db) (id : Text) :
    (channelTargets db none)[id]? = (pointersOf db id).foldl (addPointer db) none := by
  have own : (rows db .module_channels fun _ => true).filter (fun c => c.module_id == id) =
      rows db .module_channels fun c => (c.module_id == id) && true :=
    filter_rows (T := .module_channels) _ _
  refine (get_foldl_pointers db id _ _).trans ?_
  rw [pointersOf]
  simp only [Option.all_none, own, Bool.and_true, Std.ExtTreeMap.getElem?_empty]

/-- The channels of one module -/
theorem get_channelTargets_some (db : Db) (id id' : Text) :
    (channelTargets db (some [id]))[id']? =
      if id = id' then (channelTargets db none)[id]? else none := by
  have own : (rows db .module_channels fun c => [id].contains c.module_id).filter
      (fun c => c.module_id == id') =
      rows db .module_channels fun c => (c.module_id == id') && [id].contains c.module_id :=
    filter_rows (T := .module_channels) _ _
  refine (get_foldl_pointers db id' _ _).trans ?_
  rw [get_channelTargets, Std.ExtTreeMap.getElem?_empty]
  simp only [Option.all_some, own]
  split
  · rename_i same
    subst same
    refine congrArg (List.foldl (addPointer db) none) (rows_pred fun c => ?_)
    by_cases inModule : c.module_id = id <;> simp [inModule]
  · rename_i other
    have empty : (rows db .module_channels fun c =>
        (c.module_id == id') && [id].contains c.module_id) = [] := by
      rw [List.eq_nil_iff_forall_not_mem]
      intro c mem
      have both := (mem_rows.mp mem).2
      simp only [Bool.and_eq_true, beq_iff_eq, List.contains_iff_mem, List.mem_singleton] at both
      exact other (both.2.symm.trans both.1)
    rw [empty]
    rfl

/-! ## With the keys and references in order -/

section

variable {db : Db} (linked : Linked db)

include linked

theorem versionsOf_eq (id : Text) : versionsOf db id =
    sortBy (fun v => toLex (v.module_id, v.historical_order))
      (rows db .module_versions fun v => v.module_id == id) := by
  refine congrArg (sortBy _) (rows_congr fun key v => and_congr_right fun here => ?_)
  have artifact := linked.refers .module_versions key v here (.artifacts, v.artifact_id)
    (by simp [references])
  rw [artifact, Bool.and_true, List.contains_iff_mem, List.mem_singleton, beq_iff_eq]

theorem targetOf_eq (pointer : ModuleChannel) : targetOf db pointer =
    (db.row .module_versions (versionId pointer.module_id pointer.version)).map fun v =>
      ⟨pointer.version, v.artifact_id⟩ := by
  unfold targetOf
  cases here : db.row .module_versions (versionId pointer.module_id pointer.version) with
  | none => rfl
  | some v =>
      have artifact := linked.refers .module_versions _ v here (.artifacts, v.artifact_id)
        (by simp [references])
      obtain ⟨a, there⟩ := Option.isSome_iff_exists.mp artifact
      simp [there]

end

theorem Linked.version_at {db : Db} (linked : Linked db) {id : Text} {v : ModuleVersion}
    (mem : v ∈ versionsOf db id) : db.row .module_versions (versionId id v.version) = some v := by
  obtain ⟨⟨key, here⟩, rfl, -⟩ := mem_versionsOf.mp mem
  obtain rfl := linked.keyed .module_versions key v here
  exact here

/-! ## Databases that agree on a module -/

structure SameModule (id : Text) (x y : Db) : Prop where
  linked : Linked x
  linked' : Linked y
  module : x.row .modules id = y.row .modules id
  publishers : ∀ key p, x.row .publishers key = some p → y.row .publishers key = some p
  owned : ∀ T, Owned T → ∀ rest, x.row T (Text.pair id rest) = y.row T (Text.pair id rest)

section

variable {id : Text} {x y : Db} (same : SameModule id x y)

include same

theorem SameModule.row_iff {T : TableName} {row : Row T} (owned : Owned T)
    (own : ∀ key, Keyed T key row → ∃ rest, key = Text.pair id rest) {key : Text} :
    x.row T key = some row ↔ y.row T key = some row := by
  constructor
  · intro here
    obtain ⟨rest, rfl⟩ := own key (same.linked.keyed T key row here)
    exact (same.owned T owned rest).symm.trans here
  · intro here
    obtain ⟨rest, rfl⟩ := own key (same.linked'.keyed T key row here)
    exact (same.owned T owned rest).trans here

theorem SameModule.versionsOf : versionsOf x id = versionsOf y id := by
  rw [versionsOf_eq same.linked, versionsOf_eq same.linked']
  refine congrArg (sortBy _) (rows_congr fun key v => and_congr_left fun own => ?_)
  refine same.row_iff (T := .module_versions) trivial fun key keyed => ⟨v.version, ?_⟩
  rw [← beq_iff_eq.mp own]
  exact keyed

theorem SameModule.dependenciesOf : dependenciesOf x id = dependenciesOf y id := by
  refine rows_congr fun key d => and_congr_left fun own => ?_
  refine same.row_iff (T := .module_dependencies) trivial fun key keyed =>
    ⟨Text.pair d.owner_version d.dependency_module_id, ?_⟩
  rw [← beq_iff_eq.mp own]
  exact keyed

theorem SameModule.pointersOf : pointersOf x id = pointersOf y id := by
  refine rows_congr fun key c => and_congr_left fun own => ?_
  refine same.row_iff (T := .module_channels) trivial fun key keyed => ⟨c.channel.name, ?_⟩
  rw [← beq_iff_eq.mp own]
  exact keyed

theorem SameModule.moduleOf (m : ModuleRow) (p : PublisherRow) :
    moduleOf x id m p = moduleOf y id m p := by
  rw [Database.moduleOf, Database.moduleOf, same.dependenciesOf, same.versionsOf]

theorem SameModule.targets : (channelTargets x none)[id]? = (channelTargets y none)[id]? := by
  rw [get_channelTargets, get_channelTargets, same.pointersOf]
  refine List.foldl_ext _ _ _ fun channels pointer mem => ?_
  obtain rfl : pointer.module_id = id := beq_iff_eq.mp (mem_rows.mp mem).2
  have version : x.row .module_versions (versionId pointer.module_id pointer.version) =
      y.row .module_versions (versionId pointer.module_id pointer.version) :=
    same.owned .module_versions trivial pointer.version
  rw [addPointer, addPointer, targetOf_eq same.linked, targetOf_eq same.linked', version]

end

/-- A module that is locked is at the end what it was when it was read. -/
theorem frozen {Inv : Db → Prop} {db fin : Db} {p : At} {id : Text}
    (allowed : (others Inv).allows p.held db fin) (progress : Progress fin p)
    (locked : (.row .modules id, .update) ∈ p.held) (linked : Linked db) (linked' : Linked fin) :
    SameModule id (upon db p.pending) (upon fin p.pending) := by
  obtain ⟨others, still, later, -⟩ := allowed
  refine ⟨progress.linked db others still linked,
    progress.linked fin .refl .refl linked', ?_, ?_, ?_⟩
  · rw [upon_row, upon_row, others.row .modules id (locks_of_update locked)]
  · intro key row here
    rw [upon_row] at here ⊢
    refine rowAfter_extends (fun a there => ?_) row here
    obtain ⟨a', there', rfl⟩ := later.evolved .publishers key a there
    exact there'
  · exact fun T owned rest => still.read ⟨owned, id, rest, rfl, rfl⟩ locked

/-- A row that never changes is seen by all who come after it. -/
theorem read_fixed {Inv : Db → Prop} {db fin : Db} {p : At} {T : TableName} {key : Text} {row : Row T}
    (allowed : (others Inv).allows p.held db fin) (evolved : history.Across fin (upon fin p.pending))
    (fixed : ∀ row', Succeeds T row row' → row' = row) (here : db.row T key = some row) :
    (upon db p.pending).row T key = some row ∧ (upon fin p.pending).row T key = some row := by
  obtain ⟨row', inFin, same⟩ := allowed.2.2.1.evolved T key row here
  obtain rfl := fixed row' same
  obtain ⟨row'', inEnd, same⟩ := evolved T key row' inFin
  obtain rfl := fixed row'' same
  refine ⟨?_, inEnd⟩
  rw [upon_row, inFin] at inEnd
  rw [upon_row, here]
  exact inEnd

end PackageRegistry.Database
