import PackageRegistry.Database.Boundary

/-! # How the published history grows

Between two states of the registry every module keeps its head and its releases, and gets new
ones only behind them. The gate for changes of the source tree would accept this.
-/

namespace PackageRegistry.Database

open Transactions Relational Checks

/-- A module with perhaps more releases, behind those that are there -/
structure Grown (module module' : Module) : Prop where
  head : module'.toModuleHead = module.toModuleHead
  versions : module.versions <+: module'.versions

def Grows (old new : List Module) : Prop := ∀ module ∈ old, ∃ module' ∈ new, Grown module module'

section

variable {lib : Library} {module module' : Module} {old new : List Module}

theorem Grown.keepsModule (h : Grown module module') (distinct : (module'.versions.map (·.version)).Nodup)
    {current_by_id : Table Text Module} (found : current_by_id[module.id]? = some module') :
    keepsModule lib current_by_id module = .ok () := by
  have keys : ((module'.versions.map fun r => (r.version, r)).map (·.1)).Nodup := by
    rw [List.map_map]
    exact distinct
  unfold PackageRegistry.keepsModule
  simp only [found, check_ok]
  refine ⟨?_, forM_ok.mpr fun r mem => ?_⟩
  · obtain ⟨head, versions⟩ := module
    obtain ⟨head', versions'⟩ := module'
    obtain rfl : head' = head := h.head
    simp [_validate_module_provenance_immutability, PROTECTED_MODULE_FIELDS]
    rfl
  · have listed : (Table.ofList (module'.versions.map fun r => (r.version, r)))[r.version]? = some r :=
      (Table.get_ofList keys _ _).mpr (List.mem_map_of_mem (h.versions.subset mem))
    simp only [keepsRelease, listed]
    rw [if_pos (equal_iff.mpr rfl)]

/-- The gate of the source tree accepts the growth. -/
theorem Grows.immutable (h : Grows old new) (distinct : (new.map (·.id)).Nodup)
    (valid : ∀ module ∈ new, ValidModule lib module) : validate_immutability lib new old = .ok () := by
  have keys : ((new.map fun m => (m.id, m)).map (·.1)).Nodup := by
    rw [List.map_map]
    exact distinct
  refine forM_ok.mpr fun module mem => ?_
  obtain ⟨module', mem', grown⟩ := h module mem
  refine grown.keepsModule (valid module' mem').distinct ((Table.get_ofList keys _ _).mpr ?_)
  have named : module'.id = module.id := congrArg (·.id) grown.head
  rw [← named]
  exact List.mem_map_of_mem mem'

end

section

variable {x y : Db} {id : Text}

theorem order_at
    (dense : (versionsOf x id).map (·.historical_order) = List.range (versionsOf x id).length)
    {i : Nat} {v : ModuleVersion} (at_ : (versionsOf x id)[i]? = some v) : v.historical_order = i := by
  obtain ⟨inside, -⟩ := List.getElem?_eq_some_iff.mp at_
  have orders := congrArg (fun l => l[i]?) dense
  simpa [at_, List.getElem?_range inside] using orders

theorem versionsOf_prefix (linked : Linked x) (linked' : Linked y) (later : Later x y)
    (dense : (versionsOf x id).map (·.historical_order) = List.range (versionsOf x id).length)
    (dense' : (versionsOf y id).map (·.historical_order) = List.range (versionsOf y id).length) :
    versionsOf x id <+: versionsOf y id := by
  refine List.prefix_iff_getElem?.mpr fun i inside => ?_
  have at_ := List.getElem?_eq_getElem inside
  have here := linked.version_at (List.mem_of_getElem? at_)
  obtain ⟨_, there, rfl⟩ := later.evolved .module_versions _ _ here
  have mem : (versionsOf x id)[i] ∈ versionsOf y id := by
    refine mem_versionsOf.mpr ⟨⟨_, there⟩, (mem_versionsOf.mp (List.getElem_mem inside)).2.1, ?_⟩
    exact linked'.refers .module_versions _ _ there (.artifacts, _) (by simp [references])
  obtain ⟨j, at'⟩ := List.mem_iff_getElem?.mp mem
  have same : j = i := (order_at dense' at').symm.trans (order_at dense at_)
  exact same ▸ at'

/-- A version keeps its dependencies. -/
theorem dependencies_stay (linked : Linked x) (later : Later x y) {v : ModuleVersion}
    (mem : v ∈ versionsOf x id) :
    (dependenciesOf x id).filter (ownedBy v.module_id v.version) =
      (dependenciesOf y id).filter (ownedBy v.module_id v.version) := by
  rw [dependenciesOf, dependenciesOf, filter_rows (T := .module_dependencies),
    filter_rows (T := .module_dependencies)]
  refine rows_congr fun key d => and_congr_left fun matches_ => ⟨fun here => ?_, fun there => ?_⟩
  · obtain ⟨_, there, rfl⟩ := later.evolved .module_dependencies key d here
    exact there
  · rcases later.dependencies key d there with here | absent
    · exact here
    · -- the version has been there, so nothing comes to it
      simp only [ownedBy, Bool.and_eq_true, beq_iff_eq] at matches_
      rw [matches_.1.1, matches_.1.2, (mem_versionsOf.mp mem).2.1, linked.version_at mem] at absent
      cases absent

theorem Consistent.grows {lib : Library} (h : Consistent lib x) (h' : Consistent lib y)
    (later : Later x y) : Grows (projection x) (projection y) := by
  intro module mem
  obtain ⟨id, m, p, here, there, rfl⟩ := h.projected.mp mem
  obtain ⟨_, here', rfl⟩ := later.evolved .modules id m here
  obtain ⟨_, there', rfl⟩ := later.evolved .publishers _ p there
  refine ⟨_, h'.projected.mpr ⟨id, _, _, here', there', rfl⟩, rfl, ?_⟩
  obtain ⟨more, grown⟩ := versionsOf_prefix h.linked h'.linked later
    (h.sound id _ _ here there).dense (h'.sound id _ _ here' there').dense
  refine ⟨more.map fun v => releaseOf v ((dependenciesOf y id).filter
    (ownedBy v.module_id v.version)), ?_⟩
  rw [versions_moduleOf, versions_moduleOf, ← grown, List.map_append]
  refine congrArg (· ++ _) (List.map_congr_left fun v mem => ?_)
  rw [dependencies_stay h.linked later mem]

/-! ## Channels -/

/-- The pointers are where the index of the modules has them. -/
theorem Consistent.pointers {lib : Library} (h : Consistent lib x) {channels : Table Channel Target} :
    (channelTargets x none)[id]? = some channels ↔
      ∃ module ∈ projection x, module.id = id ∧ (entryOf module).channels = channels := by
  obtain ⟨-, same, -⟩ := (representable_iff assemble_distinct).mp h.representable
  rw [← same]
  exact get_channelsByModule assemble_distinct

/-- A channel keeps its version, or has one of the same or a higher precedence. -/
def MovesForward (x y : Db) : Prop :=
  ∀ (id : Text) (channel : Channel) target,
    (channelTargets x none)[id]?.bind (·[channel]?) = some target → ∃ target' key key',
      (channelTargets y none)[id]?.bind (·[channel]?) = some target' ∧
        semver_key target.version = some key ∧ semver_key target'.version = some key' ∧ key ≤ key'

theorem Consistent.forward {lib : Library} (h : Consistent lib x) (h' : Consistent lib y)
    (later : Later x y) : MovesForward x y := by
  have extends_ := validate_immutability_ok
    ((h.grows h' later).immutable assemble_distinct h'.valid)
  intro id channel target found
  obtain ⟨channels, atId, atChannel⟩ := Option.bind_eq_some_iff.mp found
  obtain ⟨module, mem, rfl, rfl⟩ := h.pointers.mp atId
  obtain ⟨module', mem', kept⟩ := extends_ module mem
  have offers : offered module.versions channel = some target := (get_channels _ _).symm.trans atChannel
  obtain ⟨target', key, key', offers', atKey, atKey', below⟩ :=
    kept.forward (h'.valid module' mem') (h.valid module mem) offers
  refine ⟨target', key, key', ?_, atKey, atKey', below⟩
  rw [h'.pointers.mpr ⟨module', mem', kept.provenance.id, rfl⟩]
  exact (get_channels _ _).trans offers'

end

end PackageRegistry.Database
