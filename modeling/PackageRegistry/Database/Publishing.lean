import PackageRegistry.Database.Boundary

/-! # Publishing one version

`insert_published_version` locks the module, and then either finds the version as it was
published or adds it. The reads of `project_v1` change nothing.
-/

namespace PackageRegistry.Database

open Transactions Relational

/-- The rows that a version brings with it -/
def Publishes (id version : Text) (promoted : Bool) : (T : TableName) → Text → Row T → Prop
  | .artifacts, _, _ => True
  | .module_versions, key, v => key = versionId id version ∧ v.published_at.isSome = promoted
  | .module_dependencies, key, _ => ∃ target, key = dependencyId id version target
  | _, _, _ => False

def publishing (id version : Text) (promoted : Bool) : Restraint Db :=
  (Evolution.adding (Publishes id version promoted)).restraint

theorem history_of_adding {new : (T : TableName) → Text → Row T → Prop} {db db' : Db}
    (h : (Evolution.adding new).Across db db') : history.Across db db' :=
  h.mono fun _ _ _ _ => adding_persists Succeeds.refl

/-- What `insert_published_version` has found or made -/
structure Published (fin : Db) (p p' : At) (id : Text) (release : Release)
    (historical_order : Option Nat) (promoted inserted : Bool) (v : ModuleVersion) : Prop where
  locked : (.row .modules id, .update) ∈ p'.held
  version : (upon fin p'.pending).row .module_versions (versionId id release.version) = some v
  ordered : ∀ n, historical_order = some n → v.historical_order = n
  promoted : v.published_at.isSome = promoted
  unchanged : inserted = false → p'.pending = p.pending
  new : inserted = true →
    (upon fin p.pending).row .module_versions (versionId id release.version) = none ∧
      (historical_order = none → v.historical_order = nextOrder (upon fin p.pending) id) ∧
      v.artifact_id = release.artifact.sha256 ∧ v.artifact_original_url = release.artifact.url

section

variable {R : Restraint Db} {Inv : Db → Prop} {fin : Db} {p : At} {s : Settings} {id : Text}

theorem fits_owned {T : TableName} {rest : Text} {row : Row T} (owned : Owned T)
    (locked : (.row .modules id, .update) ∈ p.held) (keyed : Keyed T (Text.pair id rest) row)
    (keeps : ∀ db : Db, db.row T (Text.pair id rest) = none →
      R.allows db (db.apply ⟨T, Text.pair id rest, .insert row⟩)) :
    Fits R p T (Text.pair id rest) row where
  behind r guarded := by
    obtain ⟨-, id', rest', same, rfl⟩ := guarded
    rw [← (Text.pair_inj.mp same).1]
    exact locks_of_update locked
  needs r m need := by
    cases T with
    | publishers | modules | artifacts | promotion_events => cases owned
    | module_versions | module_dependencies | module_channels => cases need
  keyed := keyed
  keeps := keeps

theorem fits_artifact {digest : Text} {row : ArtifactRow}
    (keeps : ∀ db : Db, db.row .artifacts digest = none →
      R.allows db (db.apply ⟨.artifacts, digest, .insert row⟩)) : Fits R p .artifacts digest row where
  behind r guarded := by cases guarded.1
  needs r m need := by cases need
  keyed := trivial
  keeps := keeps

/-! ## Reads -/

theorem lockModule_leads : Leading R Inv (fun found p' => p'.pending = p.pending ∧
      ∀ key module, found = some (key, module) → key = id ∧
        (.row .modules id, .update) ∈ p'.held ∧ (upon fin p.pending).row .modules id = some module)
    (selectForUpdate () .modules fun key _ => key == id : Program _) fin p := by
  rw [← Tx.bind_done (selectForUpdate () .modules fun key _ => key == id : Program _)]
  refine heeding_wardens.selectForUpdate_ends (fun db allowed _ => ?_) (fun key row _ => ?_)
    fun key row here same => ?_
  · exact ⟨onward_among fun _ mem => mem, rfl, by simp⟩
  · exact ⟨onward_among fun _ => List.mem_cons_of_mem _, rfl, by simp⟩
  · obtain rfl := beq_iff_eq.mp same
    rw [← upon_row] at here
    refine ⟨onward_among fun _ => List.mem_cons_of_mem _, rfl, ?_⟩
    rintro key module ⟨⟩
    exact ⟨rfl, by simp, here⟩

theorem module_structure_leads {module : ModuleRow} :
    Leading R Inv (fun _ p' => p' = p) (module_structure id module) fin p := by
  rw [module_structure, Tx.bind_eq]
  refine (get_leads (P := fun _ p' => p' = p) fun _ _ => rfl).bind fun publisher p' _ same => ?_
  subst same
  cases publisher with
  | none => exact raise_leads
  | some publisher => exact pure_leads rfl

theorem release_structure_leads {version : ModuleVersion} :
    Leading R Inv (fun _ p' => p' = p) (release_structure version) fin p := by
  rw [release_structure, Tx.bind_eq]
  refine (get_leads (P := fun _ p' => p' = p) fun _ _ => rfl).bind fun artifact p' _ same => ?_
  subst same
  cases artifact with
  | none => exact raise_leads
  | some artifact =>
      refine (Leads.query (P := fun _ p'' => p'' = p') fun _ _ => rfl).bind
        fun dependencies p'' _ same => ?_
      subst same
      exact pure_leads rfl

theorem checkPrevious_leads {release : Release} {historical_order : Option Nat} {promoted : Bool}
    {evidence : BuildProvenance} {previous : ModuleVersion} :
    Leading R Inv (fun inserted p' => inserted = false ∧ p' = p ∧
        (∀ n, historical_order = some n → previous.historical_order = n) ∧
        previous.published_at.isSome = promoted)
      (checkPrevious id release historical_order promoted evidence previous) fin p := by
  unfold checkPrevious
  split
  · exact raise_leads
  · rename_i ordered
    rw [Tx.bind_eq]
    refine release_structure_leads.bind fun structure_ p' _ same => ?_
    subst same
    split
    · exact raise_leads
    · rename_i agrees
      split
      · exact raise_leads
      · refine pure_leads ⟨rfl, rfl, ?_, ?_⟩
        · rintro n rfl
          have same : n = previous.historical_order := by simpa using ordered
          exact same.symm
        · exact not_not.mp fun other => agrees (.inr other)

theorem checkTargets_leads {targets : List Text} :
    Leading R Inv (fun _ p' => p' = p) (checkTargets targets) fin p := by
  induction targets with
  | nil => exact pure_leads rfl
  | cons target rest ih =>
      rw [checkTargets, Tx.bind_eq]
      refine (get_leads (P := fun _ p' => p' = p) fun _ _ => rfl).bind fun found p' _ same => ?_
      subst same
      cases found with
      | none => exact raise_leads
      | some found => exact ih

theorem addDependencies_leads {version : Text} {promoted : Bool} {dependencies : List (Text × Text)}
    (locked : (.row .modules id, .update) ∈ p.held) :
    Leading (publishing id version promoted) Inv (fun _ _ => True)
      (addDependencies s id version dependencies) fin p := by
  induction dependencies generalizing p with
  | nil => exact pure_leads trivial
  | cons dependency rest ih =>
      obtain ⟨target, specifier⟩ := dependency
      rw [addDependencies, Tx.bind_eq]
      have fits : Fits (publishing id version promoted) p .module_dependencies
          (dependencyId id version target) ⟨id, version, target, specifier⟩ :=
        fits_owned trivial locked rfl (keeps_insert (Evolution.adding_new ⟨target, rfl⟩))
      exact (add_leads fits).bind fun _ p' onward _ => ih (onward.kept _ locked)

/-! ## Adding a version -/

/-- A module whose row is locked stays as it is. -/
theorem frozen_of {Inv : Db → Prop} (links : ∀ db, Inv db → Linked db) (inv : Inv fin) {db : Db}
    (allowed : (others Inv).allows p.held db fin) (progress : Progress fin p)
    (locked : (.row .modules id, .update) ∈ p.held) :
    SameModule id (upon db p.pending) (upon fin p.pending) :=
  frozen allowed progress locked (links db (allowed.2.2.2 inv)) (links fin inv)

theorem SameModule.nextOrder {x y : Db} (same : SameModule id x y) : nextOrder x id = nextOrder y id := by
  have rows_eq : rows x .module_versions (fun v => v.module_id == id) =
      rows y .module_versions fun v => v.module_id == id := by
    refine rows_congr fun key v => and_congr_left fun own => ?_
    refine same.row_iff (T := .module_versions) trivial fun key keyed => ⟨v.version, ?_⟩
    rw [← beq_iff_eq.mp own]
    exact keyed
  rw [Database.nextOrder, Database.nextOrder, rows_eq]

section

variable (links : ∀ db, Inv db → Linked db) (inv : Inv fin) {release : Release}
  {historical_order : Option Nat} {promoted : Option Promoted} (progress : Progress fin p)

include links inv progress

theorem orderFor_leads (locked : (.row .modules id, .update) ∈ p.held) :
    Leading R Inv (fun order p' => p' = p ∧ (∀ n, historical_order = some n → order = n) ∧
        (historical_order = none → order = nextOrder (upon fin p.pending) id))
      (orderFor id historical_order) fin p := by
  cases historical_order with
  | some n => exact pure_leads ⟨rfl, fun _ same => Option.some.inj same, fun none => by cases none⟩
  | none =>
      refine .query fun db allowed => ⟨rfl, ?_, fun _ => ?_⟩
      · rintro n ⟨⟩
      · exact (frozen_of links inv allowed progress locked).nextOrder

theorem insertVersion_leads (locked : (.row .modules id, .update) ∈ p.held)
    (evidence : BuildProvenance) :
    Leading (publishing id release.version promoted.isSome) Inv (fun inserted p' => inserted = true ∧
        ∃ v, Published fin p p' id release historical_order promoted.isSome inserted v)
      (insertVersion s id release historical_order evidence (promoted.map (·.now))) fin p := by
  rw [insertVersion, Tx.bind_eq]
  refine (orderFor_leads links inv progress locked).bind fun order p' _ found => ?_
  obtain ⟨rfl, ordered, next⟩ := found
  rw [Tx.bind_eq]
  refine checkTargets_leads.bind fun _ p'' _ same => ?_
  subst same
  rw [Tx.bind_eq]
  refine (ensure_record_leads (fits_artifact (keeps_insert (Evolution.adding_new trivial)))).bind
    fun _ p₁ onward₁ _ => ?_
  have locked₁ := onward₁.kept _ locked
  rw [Tx.bind_eq]
  have stamped : (versionRow s id release order evidence (promoted.map (·.now))).published_at.isSome =
      promoted.isSome := Option.isSome_map
  have fits : Fits (publishing id release.version promoted.isSome) p₁ .module_versions
      (versionId id release.version)
      (versionRow s id release order evidence (promoted.map (·.now))) :=
    fits_owned trivial locked₁ rfl (keeps_insert (Evolution.adding_new ⟨rfl, stamped⟩))
  refine (add_leads fits).bind fun _ p₂ onward₂ added => ?_
  rw [Tx.bind_eq]
  refine (addDependencies_leads (onward₂.kept _ locked₁)).bind fun _ p₃ onward₃ _ => ?_
  refine pure_leads ⟨rfl, _, onward₃.kept _ (onward₂.kept _ locked₁), ?_, ordered, stamped,
    fun old => (by cases old), fun _ => ⟨?_, next, rfl, rfl⟩⟩
  · obtain ⟨v, there, rfl⟩ := history_of_adding onward₃.allowed .module_versions _ _ added.2
    exact there
  · -- a version that had been there would still be there
    by_contra before
    obtain ⟨v, here⟩ := Option.ne_none_iff_exists'.mp before
    obtain ⟨v', there, -⟩ := history_of_adding onward₁.allowed .module_versions _ v here
    exact absurd (there.symm.trans added.1) (by simp)

theorem publish_leads :
    Leading (publishing id release.version promoted.isSome) Inv (fun inserted p' =>
        ∃ v, Published fin p p' id release historical_order promoted.isSome inserted v)
      (insert_published_version s id release historical_order promoted) fin p := by
  rw [insert_published_version, Tx.bind_eq]
  refine lockModule_leads.bind fun found p₁ onward₁ locked => ?_
  cases found with
  | none => exact raise_leads
  | some found =>
      obtain ⟨key, module⟩ := found
      obtain ⟨same, locked⟩ := locked
      obtain ⟨rfl, mine, here⟩ := locked key module rfl
      dsimp only
      rw [Tx.bind_eq]
      refine module_structure_leads.bind fun head p' _ stays => ?_
      subst stays
      rw [Tx.bind_eq]
      refine (checked_leads (P := fun _ p'' => p'' = p') fun _ _ => rfl).bind
        fun _ p'' _ stays => ?_
      subst stays
      have progress₁ := onward₁.progress progress
      rw [Tx.bind_eq]
      refine (get_leads (P := fun found p₂ => p₂ = p'' ∧
        (upon fin p''.pending).row .module_versions (versionId key release.version) = found)
        fun db allowed => ⟨rfl, ?_⟩).bind fun found p₂ _ read => ?_
      · have frozen := frozen_of links inv allowed progress₁ mine
        exact (frozen.owned .module_versions trivial release.version).symm
      · obtain ⟨rfl, before⟩ := read
        cases found with
        | some previous =>
            refine checkPrevious_leads.mono fun inserted p₃ _ result => ?_
            obtain ⟨rfl, rfl, ordered, promoted⟩ := result
            exact ⟨previous, mine, before, ordered, promoted, fun _ => same,
              fun new => (by cases new)⟩
        | none =>
            refine (insertVersion_leads links inv progress₁ mine _).mono
              fun inserted p₃ _ result => ?_
            obtain ⟨rfl, v, published⟩ := result
            exact ⟨v, published.locked, published.version, published.ordered, published.promoted,
              fun old => (by cases old), fun _ => same ▸ published.new rfl⟩

omit links inv progress in
/-- Dependencies come with their version. -/
theorem Published.later {p' : At} {inserted : Bool} {v : ModuleVersion}
    (h : Published fin p p' id release historical_order promoted.isSome inserted v)
    (allowed : (publishing id release.version promoted.isSome).allows (upon fin p.pending)
      (upon fin p'.pending)) (linked : Linked (upon fin p'.pending)) :
    Later (upon fin p.pending) (upon fin p'.pending) := by
  cases inserted with
  | false =>
      rw [h.unchanged rfl]
      exact growth.refl _
  | true =>
      refine ⟨history_of_adding allowed, fun key d here => ?_⟩
      rcases allowed .module_dependencies key with same | ⟨-, d', there, target, rfl⟩
      · exact .inl (same.symm.trans here)
      · have keyed := Text.pair_inj.mp (linked.keyed .module_dependencies _ d here)
        right
        rw [← keyed.1, ← (Text.pair_inj.mp keyed.2).1]
        exact (h.new rfl).1

/-- The rule for the callers -/
theorem insert_published_version_leads (wider : ∀ db db', Later db db' →
      (publishing id release.version promoted.isSome).allows db db' → R.allows db db') :
    Leading R Inv (fun inserted p' =>
        (publishing id release.version promoted.isSome).allows (upon fin p.pending)
          (upon fin p'.pending) ∧
        ∃ v, Published fin p p' id release historical_order promoted.isSome inserted v)
      (insert_published_version s id release historical_order promoted) fin p := by
  refine (Leads.widen (publish_leads links inv progress) fun inserted p' onward published => ?_).mono
    fun inserted p' _ result => ⟨result.1.allowed, result.2⟩
  obtain ⟨v, published⟩ := published
  have linked := (onward.progress progress).linked fin .refl .refl (links fin inv)
  exact ⟨onward.kept, wider _ _ (published.later onward.allowed linked) onward.allowed,
    onward.progress⟩

end

/-! ## Projections -/

theorem project_v1_leads : Leading R Inv (fun modules p' => p' = p ∧ ∃ a b c,
      (others Inv).allows p.held a fin ∧ (others Inv).allows p.held b fin ∧
      (others Inv).allows p.held c fin ∧
      modules = assemble (upon a p.pending) (upon b p.pending) (upon c p.pending))
    (project_v1 none) fin p := by
  rw [project_v1, Tx.bind_eq]
  refine (Leads.query (P := fun modules p' => p' = p ∧ ∃ a, (others Inv).allows p.held a fin ∧
    modules = module_candidates (upon a p.pending) none) fun a allowed => ⟨rfl, a, allowed, rfl⟩).bind
    fun modules p' _ read => ?_
  obtain ⟨rfl, a, allowedA, rfl⟩ := read
  refine (Leads.query (P := fun dependencies p'' => p'' = p' ∧ ∃ b,
    (others Inv).allows p'.held b fin ∧ dependencies = rows (upon b p'.pending) .module_dependencies
      fun d => ((module_candidates (upon a p'.pending) none).map (·.1)).contains d.owner_module_id)
    fun b allowed => ⟨rfl, b, allowed, rfl⟩).bind fun dependencies p'' _ read => ?_
  obtain ⟨rfl, b, allowedB, rfl⟩ := read
  refine (Leads.query (P := fun versions p' => p' = p'' ∧ ∃ c,
    (others Inv).allows p''.held c fin ∧ versions = orderedVersions (upon c p''.pending)
      ((module_candidates (upon a p''.pending) none).map (·.1)))
    fun c allowed => ⟨rfl, c, allowed, rfl⟩).bind fun versions p' _ read => ?_
  obtain ⟨rfl, c, allowedC, rfl⟩ := read
  exact pure_leads ⟨rfl, a, b, c, allowedA, allowedB, allowedC, rfl⟩

theorem channel_targets_leads : Leading R Inv (fun targets p' => p' = p ∧ ∃ d,
      (others Inv).allows p.held d fin ∧ targets = channelTargets (upon d p.pending) none)
    (channel_targets none) fin p :=
  .query fun d allowed => ⟨rfl, d, allowed, rfl⟩

end

end PackageRegistry.Database
