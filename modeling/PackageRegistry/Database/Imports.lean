import PackageRegistry.Database.Publishing

/-! # What an import has done when it commits

Nobody adds a module during an import, and the import has locked the modules of the source tree.
So the comparison at its end is about the whole registry: it commits only if the registry is
the source tree.
-/

namespace PackageRegistry.Database

open Transactions Relational Checks

/-- The rows that an import of these modules adds -/
def Added (modules : List Module) : (T : TableName) → Text → Row T → Prop
  | .modules, id, _ => ∃ module ∈ modules, module.id = id
  | .module_versions, _, v => v.published_at = none
  | .module_channels, _, c => c.revision = 1
  | .promotion_events, _, _ => False
  | _, _, _ => True

/-- An import only adds rows. -/
def importing (modules : List Module) : Restraint Db where
  allows db db' := Later db db' ∧ (Evolution.adding (Added modules)).Across db db'
  refl db := ⟨growth.refl db, .refl⟩
  trans first second := ⟨growth.trans first.1 second.1, first.2.trans second.2⟩

theorem importing_keeps {modules : List Module} {T : TableName} {key : Text} {row : Row T}
    (other : T ≠ .module_dependencies) (added : Added modules T key row) (db : Db)
    (free : db.row T key = none) :
    (importing modules).allows db (db.apply ⟨T, key, .insert row⟩) := by
  refine ⟨later_write other ?_, keeps_insert (Evolution.adding_new added) db free⟩
  rw [free]
  exact persists_none

theorem importing_published {modules : List Module} {id version : Text} (db db' : Db)
    (later : Later db db') (published : (publishing id version false).allows db db') :
    (importing modules).allows db db' := by
  refine ⟨later, published.mono fun T key row row' h => Evolution.adding_mono h fun new => ?_⟩
  cases T with
  | artifacts | module_dependencies => exact fun _ => trivial
  | module_versions =>
      rintro ⟨-, unpublished⟩
      exact Option.isNone_iff_eq_none.mp (Option.isSome_eq_false_iff.mp unpublished)
  | publishers | modules | module_channels | promotion_events => exact False.elim

/-- The module is locked, and its versions stand at their positions. -/
structure Filed (fin : Db) (p : At) (module : Module) : Prop where
  locked : module.versions ≠ [] → (.row .modules module.id, .update) ∈ p.held
  versions : ∀ position release, module.versions[position]? = some release → ∃ v,
    (upon fin p.pending).row .module_versions (versionId module.id release.version) = some v ∧
      v.historical_order = position ∧ v.published_at = none

section

variable {modules : List Module} {Inv : Db → Prop} {fin : Db} {p p' : At} {s : Settings}

theorem Filed.onward {module : Module} (h : Filed fin p module)
    (onward : Onward (importing modules) fin p p') : Filed fin p' module where
  locked nonempty := onward.kept _ (h.locked nonempty)
  versions position release at_ := by
    obtain ⟨v, here, order, historical⟩ := h.versions position release at_
    obtain ⟨v', there, rfl⟩ := onward.allowed.1.evolved .module_versions _ v here
    exact ⟨_, there, order, historical⟩

/-! ## The loops -/

theorem ensurePublishers_leads {expected : List Module} :
    Leading (importing modules) Inv (fun _ _ => True) (ensurePublishers s expected) fin p := by
  induction expected generalizing p with
  | nil => exact pure_leads trivial
  | cons module rest ih =>
      rw [ensurePublishers, Tx.bind_eq]
      have fits : Fits (importing modules) p .publishers module.publisher.id ⟨module.publisher.name⟩ :=
        ⟨fun r guarded => guarded.1.elim, fun _ _ need => need.elim, trivial,
          importing_keeps (by simp) trivial⟩
      exact (ensure_record_leads fits).bind fun _ p' _ _ => ih

theorem ensureModules_leads {rest : List Module} (among : ∀ module ∈ rest, module ∈ modules)
    (locked : (.index .shadow_import, .update) ∈ p.held) :
    Leading (importing modules) Inv (fun _ _ => True) (ensureModules s rest) fin p := by
  induction rest generalizing p with
  | nil => exact pure_leads trivial
  | cons module rest ih =>
      rw [List.forall_mem_cons] at among
      rw [ensureModules, Tx.bind_eq]
      have fits : Fits (importing modules) p .modules module.id (moduleRow module) := by
        refine ⟨fun r guarded => guarded.1.elim, ?_, trivial,
          importing_keeps (by simp) ⟨module, among.1, rfl⟩⟩
        rintro r m ⟨rfl, rfl⟩
        exact locks_of_mem locked
      exact (ensure_record_leads fits).bind fun _ p' onward _ => ih among.2 (onward.kept _ locked)

section

variable (links : ∀ db, Inv db → Linked db) (inv : Inv fin)

include links inv

theorem insertReleases_leads {id : Text} {position : Nat} {releases : List Release}
    (progress : Progress fin p) :
    Leading (importing modules) Inv (fun _ p' =>
        (releases ≠ [] → (.row .modules id, .update) ∈ p'.held) ∧
          ∀ i release, releases[i]? = some release → ∃ v,
            (upon fin p'.pending).row .module_versions (versionId id release.version) = some v ∧
              v.historical_order = position + i ∧ v.published_at = none)
      (insertReleases s id position releases) fin p := by
  induction releases generalizing position p with
  | nil => exact pure_leads ⟨fun nonempty => (nonempty rfl).elim, by simp⟩
  | cons release rest ih =>
      rw [insertReleases, Tx.bind_eq]
      refine (insert_published_version_leads links inv progress importing_published).bind
        fun inserted p₁ onward₁ published => ?_
      obtain ⟨-, v, published⟩ := published
      rw [Tx.bind_eq]
      refine (ih (onward₁.progress progress)).bind fun others p₂ onward₂ later => ?_
      refine pure_leads ⟨fun _ => onward₂.kept _ published.locked, fun i found at_ => ?_⟩
      cases i with
      | zero =>
          obtain rfl : release = found := by simpa using at_
          obtain ⟨v', there, rfl⟩ :=
            onward₂.allowed.1.evolved .module_versions _ v published.version
          exact ⟨_, there, published.ordered position rfl, by simpa using published.promoted⟩
      | succ i =>
          obtain ⟨v, there, order, historical⟩ := later.2 i found (by simpa using at_)
          exact ⟨v, there, by omega, historical⟩

theorem insertModules_leads {expected : List Module} (progress : Progress fin p) :
    Leading (importing modules) Inv (fun _ p' => ∀ module ∈ expected, Filed fin p' module)
      (insertModules s expected) fin p := by
  induction expected generalizing p with
  | nil => exact pure_leads (by simp)
  | cons module rest ih =>
      rw [insertModules, Tx.bind_eq]
      refine (insertReleases_leads links inv progress).bind fun inserted p₁ onward₁ first => ?_
      rw [Tx.bind_eq]
      refine (ih (onward₁.progress progress)).bind fun others p₂ onward₂ later => ?_
      have filed : Filed fin p₁ module := by
        refine ⟨first.1, fun position release at_ => ?_⟩
        obtain ⟨v, there, order, historical⟩ := first.2 position release at_
        exact ⟨v, there, by omega, historical⟩
      exact pure_leads (List.forall_mem_cons.mpr ⟨filed.onward onward₂, later⟩)

end

theorem ensureTargets_leads {id : Text} {targets : List (Channel × Target)}
    (locked : (.row .modules id, .update) ∈ p.held) :
    Leading (importing modules) Inv (fun _ _ => True) (ensureTargets s id targets) fin p := by
  induction targets generalizing p with
  | nil => exact pure_leads trivial
  | cons target rest ih =>
      obtain ⟨channel, target⟩ := target
      rw [ensureTargets, Tx.bind_eq]
      have fits : Fits (importing modules) p .module_channels (channelId id channel)
          ⟨id, channel, target.version, 1⟩ := fits_owned trivial locked rfl (importing_keeps (by simp) rfl)
      exact (ensure_record_leads fits).bind fun _ p' onward _ => ih (onward.kept _ locked)

theorem ensureChannels_leads {channels : List (Text × Table Channel Target)}
    (locked : ∀ entry ∈ channels, (.row .modules entry.1, .update) ∈ p.held) :
    Leading (importing modules) Inv (fun _ _ => True) (ensureChannels s channels) fin p := by
  induction channels generalizing p with
  | nil => exact pure_leads trivial
  | cons entry rest ih =>
      obtain ⟨id, targets⟩ := entry
      rw [List.forall_mem_cons] at locked
      rw [ensureChannels, Tx.bind_eq]
      exact (ensureTargets_leads locked.1).bind fun _ p' onward _ =>
        ih fun entry mem => onward.kept _ (locked.2 entry mem)

/-- What the checks at the end have seen, at four times -/
def Parity (Inv : Db → Prop) (fin : Db) (p : At) (expected : List Module)
    (channels : Table Text (Table Channel Target)) : Prop :=
  ∃ a b c d, (others Inv).allows p.held a fin ∧ (others Inv).allows p.held b fin ∧
    (others Inv).allows p.held c fin ∧ (others Inv).allows p.held d fin ∧
    canonicalText (assemble (upon a p.pending) (upon b p.pending) (upon c p.pending)) =
      canonicalText expected ∧ channelTargets (upon d p.pending) none = channels

theorem checkParity_leads {expected : List Module} {channels : Table Text (Table Channel Target)} :
    Leading (importing modules) Inv (fun _ p' => p' = p ∧ Parity Inv fin p expected channels)
      (checkParity expected channels) fin p := by
  rw [checkParity, Tx.bind_eq]
  refine project_v1_leads.bind fun projection p' _ read => ?_
  obtain ⟨rfl, a, b, c, allowedA, allowedB, allowedC, rfl⟩ := read
  split
  · exact raise_leads
  · rename_i same
    rw [Tx.bind_eq]
    refine channel_targets_leads.bind fun targets p'' _ read => ?_
    obtain ⟨rfl, d, allowedD, rfl⟩ := read
    split
    · exact raise_leads
    · rename_i pointers
      exact pure_leads ⟨rfl, a, b, c, d, allowedA, allowedB, allowedC, allowedD, not_not.mp same,
        not_not.mp pointers⟩

end

/-! ## The registry that is imported -/

/-- Versions that are filed have the positions that they are projected at. -/
theorem Filed.positions {fin : Db} {p : At} {module : Module} (filed : Filed fin p module)
    (linked : Linked (upon fin p.pending)) {m : ModuleRow} {publisher : PublisherRow}
    (same : moduleOf (upon fin p.pending) module.id m publisher = module) :
    (versionsOf (upon fin p.pending) module.id).map (·.historical_order) =
        List.range (versionsOf (upon fin p.pending) module.id).length ∧
      ∀ v ∈ versionsOf (upon fin p.pending) module.id, v.published_at = none := by
  have each : ∀ (i : Nat) (v : ModuleVersion),
      (versionsOf (upon fin p.pending) module.id)[i]? = some v →
      v.historical_order = i ∧ v.published_at = none := by
    intro i v at_
    have listed : module.versions[i]? = some (releaseOf v
        ((dependenciesOf (upon fin p.pending) module.id).filter
          (ownedBy v.module_id v.version))) := by
      rw [← same, versions_moduleOf, List.getElem?_map, at_]
      rfl
    obtain ⟨v', there, order, historical⟩ := filed.versions i _ listed
    have here := linked.version_at (List.mem_of_getElem? at_)
    obtain rfl := Option.some.inj (there.symm.trans here)
    exact ⟨order, historical⟩
  refine ⟨List.ext_getElem (by simp) fun i inMap inRange => ?_, fun v mem => ?_⟩
  · rw [List.length_map] at inMap
    rw [List.getElem_map, List.getElem_range]
    exact (each i _ (List.getElem?_eq_getElem inMap)).1
  · obtain ⟨i, at_⟩ := List.mem_iff_getElem?.mp mem
    exact (each i v at_).2

/-- A registry that is the source tree, and has no promoted version -/
structure Imported (lib : Library) (expected : List Module) (db : Db) : Prop where
  consistent : Consistent lib db
  projection : projection db = expected
  historical : ∀ key v, db.row .module_versions key = some v → v.published_at = none

section

variable {lib : Library} {modules expected : List Module} {Inv : Db → Prop} {fin : Db} {p : At}
  (sound : ∀ db, Inv db → Consistent lib db) (inv : Inv fin) (progress : Progress fin p)
  (valid : ∀ module ∈ expected, ValidModule lib module)
  (parity : Parity Inv fin p expected (channelsByModule (indexOf expected)))

include sound inv progress valid parity

/-- There is no module beside those of the source tree. -/
theorem Parity.known (alone : (.index .shadow_import, .update) ∈ p.held)
    (allowed : (importing modules).allows fin (upon fin p.pending))
    (listed : ∀ module ∈ modules, ∃ module' ∈ expected, module'.id = module.id) {id : Text}
    {m : ModuleRow} (here : (upon fin p.pending).row .modules id = some m) :
    ∃ module ∈ expected, module.id = id := by
  obtain ⟨a, b, c, d, read, -, -, -, same, -⟩ := parity
  rcases allowed.2 .modules id with old | ⟨-, -, -, module, mem, rfl⟩
  · -- a module that others have added was there before the import had its lock
    rw [here] at old
    obtain ⟨m', before, -⟩ := read.1.needed (.index .shadow_import) .update .update alone
      (LockMode.update_conflicts _) .modules id m old.symm ⟨rfl, rfl⟩
    obtain ⟨publisher, candidate⟩ := (sound a (read.2.2.2 inv)).candidate before
    obtain ⟨-, -, key, v, version, own⟩ := mem_candidates.mp candidate
    have linked := progress.linked a read.1 read.2.1 (sound a (read.2.2.2 inv)).linked
    have module := read_fixed (T := .modules) read allowed.1.evolved (fun _ same => same) before
    have version := read_fixed (T := .module_versions) read allowed.1.evolved (fun _ same => same)
      version
    have publisher := linked.refers .modules id m' module.1 (.publishers, m'.publisher_id)
      (by simp [references])
    obtain ⟨publisher, there⟩ := Option.isSome_iff_exists.mp publisher
    have mem : projected (dependenciesOf (upon b p.pending) id) (versionsOf (upon c p.pending) id)
        (id, m', publisher) ∈ expected := by
      rw [← canonicalText_inj valid same]
      exact mem_assemble.mpr ⟨id, m', publisher, mem_candidates.mpr
        ⟨module.1, there, key, v, version.1, own⟩, rfl⟩
    exact ⟨_, mem, rfl⟩
  · exact listed module mem

/-- Each module of the source tree is in the registry, as it is in the tree. -/
theorem Parity.reads (distinct : (expected.map (·.id)).Nodup) {module : Module}
    (mem : module ∈ expected) (locked : (.row .modules module.id, .update) ∈ p.held) :
    ∃ m publisher, (upon fin p.pending).row .modules module.id = some m ∧
      (upon fin p.pending).row .publishers m.publisher_id = some publisher ∧
      moduleOf (upon fin p.pending) module.id m publisher = module ∧
      (channelTargets (upon fin p.pending) none)[module.id]? = some (entryOf module).channels := by
  obtain ⟨a, b, c, d, allowedA, allowedB, allowedC, allowedD, same, targets⟩ := parity
  have links : ∀ db, Inv db → Linked db := fun db holds => (sound db holds).linked
  have inA := frozen_of links inv allowedA progress locked
  have inB := frozen_of links inv allowedB progress locked
  have inC := frozen_of links inv allowedC progress locked
  have inD := frozen_of links inv allowedD progress locked
  have read := mem
  rw [← canonicalText_inj valid same] at read
  obtain ⟨id, m, publisher, candidate, built⟩ := mem_assemble.mp read
  obtain rfl : module.id = id := congrArg (·.id) built
  obtain ⟨here, there, -⟩ := mem_candidates.mp candidate
  refine ⟨m, publisher, inA.module.symm.trans here, inA.publishers _ _ there, ?_, ?_⟩
  · rw [moduleOf, ← inB.dependenciesOf, ← inC.versionsOf]
    exact built.symm
  · rw [← inD.targets, targets]
    exact (get_channelsByModule distinct).mpr ⟨module, mem, rfl, rfl⟩

/-- An import that passes its checks leaves the source tree. -/
theorem Parity.imported (alone : (.index .shadow_import, .update) ∈ p.held)
    (allowed : (importing modules).allows fin (upon fin p.pending))
    (listed : ∀ module ∈ modules, ∃ module' ∈ expected, module'.id = module.id)
    (distinct : (expected.map (·.id)).Nodup)
    (ascending : StableSort.Ascending (fun m : Module => m.id) expected)
    (filed : ∀ module ∈ expected, Filed fin p module) :
    Imported lib expected (upon fin p.pending) := by
  have linked : Linked (upon fin p.pending) := progress.linked fin .refl .refl (sound fin inv).linked
  have locked : ∀ module ∈ expected, (.row .modules module.id, .update) ∈ p.held :=
    fun module mem => (filed module mem).locked (valid module mem).nonempty
  -- every module of the registry, and what is there of it
  have each : ∀ id m publisher, (upon fin p.pending).row .modules id = some m →
      (upon fin p.pending).row .publishers m.publisher_id = some publisher →
      ∃ module ∈ expected, module.id = id ∧ moduleOf (upon fin p.pending) id m publisher = module ∧
        (channelTargets (upon fin p.pending) none)[id]? = some (entryOf module).channels := by
    intro id m publisher here there
    obtain ⟨module, mem, rfl⟩ := parity.known sound inv progress valid alone allowed listed here
    obtain ⟨m', publisher', here', there', same, targets⟩ :=
      parity.reads sound inv progress valid distinct mem (locked module mem)
    obtain rfl := Option.some.inj (here'.symm.trans here)
    obtain rfl := Option.some.inj (there'.symm.trans there)
    exact ⟨module, mem, rfl, same, targets⟩
  have consistent : Consistent lib (upon fin p.pending) := by
    refine ⟨linked, fun id m publisher here there => ?_⟩
    obtain ⟨module, mem, rfl, same, targets⟩ := each id m publisher here there
    refine ⟨?_, ?_, ((filed module mem).positions linked same).1⟩
    · rw [same]
      exact valid module mem
    · rw [same]
      exact targets
  refine ⟨consistent, ?_, fun key v here => ?_⟩
  · have members : ∀ module, module ∈ projection (upon fin p.pending) ↔ module ∈ expected := by
      intro module
      rw [consistent.projected]
      constructor
      · rintro ⟨id, m, publisher, here, there, rfl⟩
        obtain ⟨module, mem, -, same, -⟩ := each id m publisher here there
        exact same ▸ mem
      · intro mem
        obtain ⟨m, publisher, here, there, same, -⟩ :=
          parity.reads sound inv progress valid distinct mem (locked module mem)
        exact ⟨module.id, m, publisher, here, there, same.symm⟩
    have perm : (projection (upon fin p.pending)).Perm expected :=
      (List.perm_ext_iff_of_nodup (.of_map _ assemble_distinct) (.of_map _ distinct)).mpr members
    have sorted : StableSort.Ascending (fun m : Module => m.id) (projection (upon fin p.pending)) :=
      assemble_ascending
    have same := StableSort.sortBy_perm (fun m : Module => m.id) perm assemble_distinct
    rwa [StableSort.sortBy_of_ascending _ sorted, StableSort.sortBy_of_ascending _ ascending] at same
  · have module := linked.refers .module_versions key v here (.modules, v.module_id)
      (by simp [references])
    have artifact := linked.refers .module_versions key v here (.artifacts, v.artifact_id)
      (by simp [references])
    obtain ⟨m, there⟩ := Option.isSome_iff_exists.mp module
    have publisher := linked.refers .modules _ m there (.publishers, m.publisher_id)
      (by simp [references])
    obtain ⟨publisher, byId⟩ := Option.isSome_iff_exists.mp publisher
    obtain ⟨module, mem, own, same, -⟩ := each v.module_id m publisher there byId
    rw [← own] at same
    refine ((filed module mem).positions linked same).2 v (mem_versionsOf.mpr ⟨⟨key, here⟩, own.symm, ?_⟩)
    exact artifact

end

/-! ## The import -/

theorem loaded_ascending {lib : Library} {root : RegistryRoot} {modules : List Module}
    (loaded : load_registry lib root = .ok modules) :
    StableSort.Ascending (fun m : Module => m.id) modules := by
  obtain ⟨-, unsorted, -, -, rfl⟩ := load_registry_iff.mp loaded
  exact StableSort.ascending_sortBy _ _

theorem import_registry_leads {s : Settings} {root : RegistryRoot} {modules : List Module}
    (loaded : load_registry s.lib root = .ok modules) {Inv : Db → Prop} {fin : Db}
    (sound : ∀ db, Inv db → Consistent s.lib db) (inv : Inv fin) :
    Leading (importing modules) Inv
      (fun _ p => Imported s.lib (modules.map canonical) (upon fin p.pending))
      (import_registry s root) fin .start := by
  obtain ⟨valid, distinct⟩ := load_registry_ok loaded
  have canonicals : modules.mapM canonical_module = .ok (modules.map canonical) :=
    mapM_ok fun module mem => canonical_module_ok (valid module mem)
  have links : ∀ db, Inv db → Linked db := fun db holds => (sound db holds).linked
  have ids : (modules.map canonical).map (·.id) = modules.map (·.id) := by
    rw [List.map_map]
    rfl
  have valid' : ∀ module ∈ modules.map canonical, ValidModule s.lib module := by
    intro module mem
    obtain ⟨module, inModules, rfl⟩ := List.mem_map.mp mem
    exact (valid module inModules).canonical
  have distinct' : ((modules.map canonical).map (·.id)).Nodup := ids ▸ distinct
  have ascending : StableSort.Ascending (fun m : Module => m.id) (modules.map canonical) :=
    List.pairwise_map.mpr (loaded_ascending loaded)
  have checks : import_registry s root = importModules s modules (modules.map canonical)
      (channelsByModule (indexOf (modules.map canonical))) := by
    have read : import_registry s root = (do
        let expected ← checked (modules.mapM canonical_module)
        let index ← checked (build_index s.lib modules)
        importModules s modules expected (channelsByModule index)) := by
      rw [import_registry, loaded]
      rfl
    rw [read, canonicals, build_index_ok valid, indexOf_canonical]
    rfl
  rw [checks, importModules, Tx.bind_eq]
  have alone : Onward (importing modules) fin .start (.lock .start (.index .shadow_import) .update) :=
    onward_among fun _ mem => by cases mem
  refine (Leads.acquire (P := fun _ p => p = .lock .start (.index .shadow_import) .update)
    alone rfl).bind fun _ p _ first => ?_
  subst first
  have mine : (.index .shadow_import, .update) ∈
      (Point.lock .start (.index .shadow_import) .update : At).held := by simp [Point.lock]
  rw [Tx.bind_eq]
  refine ensurePublishers_leads.bind fun _ p₁ onward₁ _ => ?_
  rw [Tx.bind_eq]
  refine (ensureModules_leads (fun _ mem => mem) (onward₁.kept _ mine)).bind
    fun _ p₂ onward₂ _ => ?_
  have onward₂' := (onward (importing modules) fin).trans alone
    ((onward (importing modules) fin).trans onward₁ onward₂)
  rw [Tx.bind_eq]
  refine (insertModules_leads links inv (onward₂'.progress progress_start)).bind
    fun inserted p₃ onward₃ filed => ?_
  have locked : ∀ entry ∈ (channelsByModule (indexOf (modules.map canonical))).toList,
      (.row .modules entry.1, .update) ∈ p₃.held := by
    rintro ⟨id, channels⟩ mem
    obtain ⟨module, inModules, rfl, -⟩ :=
      (get_channelsByModule distinct').mp ((Table.mem_toList _).mp mem)
    exact (filed module inModules).locked (valid' module inModules).nonempty
  rw [Tx.bind_eq]
  refine (ensureChannels_leads locked).bind fun _ p₄ onward₄ _ => ?_
  rw [Tx.bind_eq]
  refine checkParity_leads.bind fun _ p₅ _ checked => ?_
  obtain ⟨rfl, parity⟩ := checked
  have whole := (onward (importing modules) fin).trans onward₂'
    ((onward (importing modules) fin).trans onward₃ onward₄)
  refine pure_leads (parity.imported sound inv (whole.progress progress_start) valid' ?_
    whole.allowed ?_ distinct' ascending fun module mem => (filed module mem).onward onward₄)
  · exact onward₄.kept _ (onward₃.kept _ (onward₂.kept _ (onward₁.kept _ mine)))
  · exact fun module mem => ⟨canonical module, List.mem_map_of_mem mem, rfl⟩

end PackageRegistry.Database
