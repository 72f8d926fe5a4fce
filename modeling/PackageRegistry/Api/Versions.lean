import PackageRegistry.Registry.History
import PackageRegistry.Registry.Precedence

/-! # The version listing of the API

`RegistryReadService._versions` over the rows that the database returns, in whatever order it
returns them. Timestamps are numbers.
-/

namespace PackageRegistry.Api

/-! ## Rows -/

structure BuildProvenance where
  builder_version : Option Text
  builder_commit : Option Text
  host_commit : Option Text
  reproducible : Option Bool
  host_contract_status : Option Text
  environment_json : Option Json

/-- A row of `published_versions`: a version of the module with its artifact, the source
    repository of its module and its provenance -/
structure VersionRow where
  version : Text
  historical_publication_channel : Text
  bundle_format_version : Int
  artifact_original_url : Text
  source_tag : Option Text
  source_commit : Text
  host_compatibility : Text
  sdk_compatibility : Text
  published_at : Option Int
  digest : Text
  byte_size : Option Int
  storage_locator : Option Text
  source_repository : Text
  evidence : Option BuildProvenance

/-- A dependency of a version of the module -/
structure DependencyRow where
  owner_version : Text
  dependency_module_id : Text
  specifier : Text
  deriving DecidableEq

/-- What the tables hold for one module -/
structure Published where
  rows : List VersionRow
  dependencies : List DependencyRow
  /-- The primary key of `module_versions` -/
  versions_distinct : (rows.map (·.version)).Nodup
  /-- The primary key of `module_dependencies` -/
  dependencies_distinct :
    (dependencies.map fun d => (d.owner_version, d.dependency_module_id)).Nodup
  /-- Both ways of writing a version validate it. -/
  validated : ∀ row ∈ rows, (SEMVER_RE row.version).isSome = true

/-- What the two queries return to one request: their rows in any order -/
structure Reads (published : Published) where
  published_versions : Option Text → List VersionRow
  version_dependencies : List Text → List DependencyRow
  all_versions : ∀ version, (published_versions version).Perm
    (published.rows.filter fun row => version.all (row.version == ·))
  all_dependencies : ∀ versions, (version_dependencies versions).Perm
    (published.dependencies.filter fun d => versions.contains d.owner_version)

/-! ## `_versions` -/

structure PublishedVersion where
  version : Text
  historical_publication_channel : Text
  bundle_format_version : Int
  artifact_url : Text
  artifact_sha256 : Text
  artifact_byte_size : Option Int
  artifact_storage_locator : Option Text
  source_repository : Text
  source_tag : Option Text
  source_commit : Text
  compatibility_host : Text
  compatibility_sdk : Text
  dependencies : Table Text Text
  published_at : Option Int
  provenance : Option BuildProvenance

structure VersionPage where
  items : List PublishedVersion
  total : Nat
  limit : Nat
  offset : Nat

inductive ReadError where
  | not_found (message : Text)
  | registry (error : RegistryError)

def rowKey (row : VersionRow) : WithBot SemverKey := semver_key row.version

/-- The key of the second sort, with `reverse=True`: the greater comes first, and equal keys keep
    their order. -/
def descendingKey (row : VersionRow) : (WithBot SemverKey)ᵒᵈ := OrderDual.toDual (rowKey row)

def sortRows (rows : List VersionRow) : List VersionRow :=
  sortBy descendingKey (sortBy (fun row => row.version) rows)

/-- The dictionary of dictionaries, after a row -/
def addDependency (dependencies : Table Text (Table Text Text)) (row : DependencyRow) :
    Table Text (Table Text Text) :=
  dependencies.insert row.owner_version
    ((dependencies[row.owner_version]?.getD ∅).insert row.dependency_module_id row.specifier)

def publish (dependencies : Table Text (Table Text Text)) (row : VersionRow) : PublishedVersion where
  version := row.version
  historical_publication_channel := row.historical_publication_channel
  bundle_format_version := row.bundle_format_version
  artifact_url := row.artifact_original_url
  artifact_sha256 := row.digest
  artifact_byte_size := row.byte_size
  artifact_storage_locator := row.storage_locator
  source_repository := row.source_repository
  source_tag := row.source_tag
  source_commit := row.source_commit
  compatibility_host := row.host_compatibility
  compatibility_sdk := row.sdk_compatibility
  dependencies := dependencies[row.version]?.getD ∅
  published_at := row.published_at
  provenance := row.evidence

variable {published : Published}

/-- A module is a candidate if it has a published version. -/
def _versions (reads : Reads published) (version : Option Text) (limit offset : Nat) :
    Except ReadError VersionPage :=
  if published.rows.isEmpty then .error (.not_found (text "Module not found"))
  else
    let rows := reads.published_versions version
    match checkVersions (rows.map (·.version)) with
    | .error error => .error (.registry error)
    | .ok () =>
        let rows := sortRows rows
        let selected := (rows.drop offset).take limit
        let dependencies :=
          (reads.version_dependencies (selected.map (·.version))).foldl addDependency ∅
        .ok ⟨selected.map (publish dependencies), rows.length, limit, offset⟩

def list_versions (reads : Reads published) (limit offset : Nat) : Except ReadError VersionPage :=
  _versions reads none limit offset

/-! ## What the listing should be -/

/-- The precedence of the first is higher, or it is the same and its text comes first. -/
def Before (a b : Text) : Prop :=
  ∃ m n, SEMVER_RE a = some m ∧ SEMVER_RE b = some n ∧
    (Precedes n m ∨ ¬Precedes m n ∧ ¬Precedes n m ∧ a < b)

/-- Exactly the dependencies of a version -/
def OwnDependencies (published : Published) (version : Text) (dependencies : Table Text Text) : Prop :=
  ∀ (id specifier : Text), dependencies[id]? = some specifier ↔
    ⟨version, id, specifier⟩ ∈ published.dependencies

/-- Every version once, as it is stored and with its own dependencies, in strict order -/
structure Listing (published : Published) (items : List PublishedVersion) : Prop where
  ordered : (items.map (·.version)).Pairwise Before
  complete : (items.map (·.version)).Perm (published.rows.map (·.version))
  stored : ∀ item ∈ items, ∃ row ∈ published.rows, ∃ dependencies,
    OwnDependencies published row.version (dependencies[row.version]?.getD ∅) ∧
      item = publish dependencies row

/-! ## Dependencies -/

theorem get_addDependency (dependencies : Table Text (Table Text Text)) (row : DependencyRow)
    (version id : Text) :
    ((addDependency dependencies row)[version]?.getD ∅)[id]? =
      if row.owner_version = version ∧ row.dependency_module_id = id then some row.specifier
      else (dependencies[version]?.getD ∅)[id]? := by
  rw [addDependency, Table.get_insert]
  by_cases owner : row.owner_version = version
  · rw [if_pos owner, Option.getD_some, Table.get_insert, owner]
    simp
  · rw [if_neg owner]
    simp [owner]

/-- The dictionary holds what the rows say, each of which has a key of its own. -/
theorem collected {rows : List DependencyRow}
    (distinct : (rows.map fun d => (d.owner_version, d.dependency_module_id)).Nodup)
    (version id specifier : Text) :
    ((rows.foldl addDependency ∅)[version]?.getD ∅)[id]? = some specifier ↔
      ⟨version, id, specifier⟩ ∈ rows := by
  induction rows using List.reverseRecOn with
  | nil => simp
  | append_singleton rows row ih =>
      rw [List.map_append, List.nodup_append] at distinct
      rw [List.foldl_append, List.foldl_cons, List.foldl_nil, get_addDependency]
      by_cases here : row.owner_version = version ∧ row.dependency_module_id = id
      · rw [if_pos here]
        have fresh : (⟨version, id, specifier⟩ : DependencyRow) ∉ rows := by
          intro mem
          refine distinct.2.2 (version, id) (List.mem_map.mpr ⟨_, mem, rfl⟩) (version, id) ?_ rfl
          simp [here]
        obtain ⟨rfl, rfl⟩ := here
        rw [List.mem_append, or_iff_right fresh, List.mem_singleton, Option.some.injEq]
        constructor
        · rintro rfl
          rfl
        · intro same
          rw [← same]
      · rw [if_neg here, ih distinct.1, List.mem_append, List.mem_singleton]
        constructor
        · exact .inl
        · rintro (mem | rfl)
          · exact mem
          · exact absurd ⟨rfl, rfl⟩ here

/-! ## Order -/

open StableSort (Refined)

theorem mem_sortRows {rows : List VersionRow} {row : VersionRow} :
    row ∈ sortRows rows ↔ row ∈ rows := by
  rw [sortRows, StableSort.mem_sortBy, StableSort.mem_sortBy]

theorem perm_sortRows (rows : List VersionRow) : (sortRows rows).Perm rows :=
  (StableSort.perm_sortBy _ _).trans (StableSort.perm_sortBy _ _)

theorem pairwise_sortRows (rows : List VersionRow) :
    (sortRows rows).Pairwise (Refined descendingKey fun a b => a.version ≤ b.version) :=
  StableSort.pairwise_sortBy _ (StableSort.ascending_sortBy _ rows)

theorem eq_of_version {rows : List VersionRow} (distinct : (rows.map (·.version)).Nodup)
    {a b : VersionRow} (inA : a ∈ rows) (inB : b ∈ rows) (same : a.version = b.version) : a = b :=
  List.inj_on_of_nodup_map distinct inA inB same

/-- The order in which the rows come does not matter. -/
theorem sortRows_perm {rows rows' : List VersionRow} (distinct : (rows.map (·.version)).Nodup)
    (perm : rows'.Perm rows) : sortRows rows' = sortRows rows := by
  have same : (sortRows rows').Perm (sortRows rows) :=
    (perm_sortRows rows').trans (perm.trans (perm_sortRows rows).symm)
  refine List.Perm.eq_of_pairwise (fun a b inA inB before after => ?_) (pairwise_sortRows rows')
    (pairwise_sortRows rows) same
  have inA := perm.mem_iff.mp (mem_sortRows.mp inA)
  have inB := mem_sortRows.mp inB
  rcases before with less | ⟨equal, le⟩
  · rcases after with more | ⟨equal, -⟩
    · exact absurd more less.asymm
    · exact absurd equal less.ne'
  · rcases after with more | ⟨-, ge⟩
    · exact absurd equal more.ne'
    · exact eq_of_version distinct inA inB (le_antisymm le ge)

theorem before_of_refined {a b : VersionRow} (valid : (SEMVER_RE a.version).isSome = true)
    (valid' : (SEMVER_RE b.version).isSome = true) (different : a.version ≠ b.version)
    (refined : Refined descendingKey (fun a b => a.version ≤ b.version) a b) :
    Before a.version b.version := by
  obtain ⟨m, matched⟩ := Option.isSome_iff_exists.mp valid
  obtain ⟨n, matched'⟩ := Option.isSome_iff_exists.mp valid'
  have keyA : rowKey a = m.key := by
    rw [rowKey, semver_key, matched]
    rfl
  have keyB : rowKey b = n.key := by
    rw [rowKey, semver_key, matched']
    rfl
  have precedes := key_lt (semver_re_matched matched) (semver_re_matched matched')
  have precedes' := key_lt (semver_re_matched matched') (semver_re_matched matched)
  refine ⟨m, n, matched, matched', ?_⟩
  rw [← precedes, ← precedes']
  rcases refined with less | ⟨equal, le⟩
  · rw [descendingKey, descendingKey, OrderDual.toDual_lt_toDual, keyA, keyB,
      WithBot.coe_lt_coe] at less
    exact .inl less
  · rw [descendingKey, descendingKey, OrderDual.toDual_inj, keyA, keyB, WithBot.coe_inj] at equal
    exact .inr ⟨equal.not_lt, equal.not_gt, lt_of_le_of_ne le different⟩

theorem ordered_sortRows {rows : List VersionRow} (distinct : (rows.map (·.version)).Nodup)
    (valid : ∀ row ∈ rows, (SEMVER_RE row.version).isSome = true) :
    ((sortRows rows).map (·.version)).Pairwise Before := by
  have different : ((sortRows rows).map (·.version)).Nodup :=
    ((perm_sortRows rows).map _).nodup_iff.mpr distinct
  rw [List.Nodup, List.pairwise_map] at different
  rw [List.pairwise_map]
  refine (different.and (pairwise_sortRows rows)).imp_of_mem ?_
  rintro a b inA inB ⟨ne, refined⟩
  exact before_of_refined (valid a (mem_sortRows.mp inA)) (valid b (mem_sortRows.mp inB)) ne refined

/-! ## Pages -/

theorem pages_joined {α : Type} (l : List α) (limit n : Nat) :
    ((List.range n).flatMap fun k => (l.drop (k * limit)).take limit) = l.take (n * limit) := by
  induction n with
  | zero => simp
  | succ n ih =>
      rw [List.range_succ, List.flatMap_append, ih, List.flatMap_singleton, Nat.succ_mul,
        List.take_add]

/-- The whole listing -/
def listing (published : Published) : List PublishedVersion :=
  (sortRows published.rows).map (publish (published.dependencies.foldl addDependency ∅))

theorem map_version_publish (dependencies : Table Text (Table Text Text)) (rows : List VersionRow) :
    (rows.map (publish dependencies)).map (·.version) = rows.map (·.version) := by
  rw [List.map_map]
  rfl

theorem listing_correct (published : Published) : Listing published (listing published) where
  ordered := by
    rw [listing, map_version_publish]
    exact ordered_sortRows published.versions_distinct published.validated
  complete := by
    rw [listing, map_version_publish]
    exact (perm_sortRows published.rows).map _
  stored := by
    intro item mem
    obtain ⟨row, inRows, rfl⟩ := List.mem_map.mp mem
    exact ⟨row, mem_sortRows.mp inRows, _,
      collected published.dependencies_distinct row.version, rfl⟩

theorem publish_congr {dependencies dependencies' : Table Text (Table Text Text)} {row : VersionRow}
    (same : dependencies[row.version]?.getD ∅ = dependencies'[row.version]?.getD ∅) :
    publish dependencies row = publish dependencies' row := by
  rw [publish, publish, same]

/-- What a page selects of the dependencies is enough for its versions. -/
theorem own_dependencies (reads : Reads published) {versions : List Text} {version : Text}
    (among : version ∈ versions) :
    ((reads.version_dependencies versions).foldl addDependency ∅)[version]?.getD ∅ =
      (published.dependencies.foldl addDependency ∅)[version]?.getD ∅ := by
  have perm := reads.all_dependencies versions
  have distinct : ((reads.version_dependencies versions).map
      fun d => (d.owner_version, d.dependency_module_id)).Nodup :=
    (perm.map _).nodup_iff.mpr
      ((List.filter_sublist.map _).nodup published.dependencies_distinct)
  refine Table.ext fun id => Option.ext fun specifier => ?_
  rw [collected distinct, collected published.dependencies_distinct, perm.mem_iff, List.mem_filter,
    List.contains_iff_mem, and_iff_left among]

theorem list_versions_eq (reads : Reads published) (some_ : published.rows ≠ [])
    (limit offset : Nat) : list_versions reads limit offset =
      .ok ⟨((listing published).drop offset).take limit, published.rows.length, limit, offset⟩ := by
  have perm : (reads.published_versions none).Perm published.rows := by
    simpa using reads.all_versions none
  have valid : checkVersions ((reads.published_versions none).map (·.version)) = .ok () := by
    refine checkVersions_ok fun v mem => ?_
    obtain ⟨row, inRows, rfl⟩ := List.mem_map.mp mem
    exact published.validated row (perm.mem_iff.mp inRows)
  have sorted := sortRows_perm published.versions_distinct perm
  have items : ((sortRows published.rows).drop offset |>.take limit).map
      (publish ((reads.version_dependencies
        (((sortRows published.rows).drop offset |>.take limit).map (·.version))).foldl
          addDependency ∅)) = ((listing published).drop offset).take limit := by
    rw [listing, ← List.map_drop, ← List.map_take]
    refine List.map_congr_left fun row mem => publish_congr ?_
    exact own_dependencies reads (List.mem_map.mpr ⟨row, mem, rfl⟩)
  have length : (sortRows published.rows).length = published.rows.length :=
    (perm_sortRows published.rows).length_eq
  simp only [list_versions, _versions, List.isEmpty_eq_false_iff.mpr some_, Bool.false_eq_true,
    if_false, valid, sorted, items, length]

end PackageRegistry.Api
