import Mathlib.Data.List.Dedup
import PackageRegistry.Deploy.Releases

/-! # What pruning selects

The entries all have to be ready releases and both links have to lead to one of them; then
the selection is what the retention leaves over, and nothing if there is no more than that.
-/

namespace PackageRegistry.Deploy

open Unix

variable {platform : Platform} {host : Host} {root : Path}

/-! ## Releases by their names -/

theorem find_release {tree : Tree} (mem : tree ∈ host.releases) (more : Path) :
    find host tree.entry.name more =
      if more = [] then some tree.entry.inode
      else if tree.entry.inode.isDirectory then tree.contents.find more
      else none := by
  have found : (host.releases.find? fun other => other.entry.name == tree.entry.name) =
      some tree := by
    obtain ⟨other, found⟩ : ∃ other,
        (host.releases.find? fun other => other.entry.name == tree.entry.name) = some other :=
      Option.isSome_iff_exists.mp (List.find?_isSome.mpr ⟨tree, mem, by simp⟩)
    have same : other.entry.name = tree.entry.name := by simpa using List.find?_some found
    rw [found, List.inj_on_of_nodup_map host.distinct (List.mem_of_find?_eq_some found) mem same]
  rw [find, found, Option.bind_some]

theorem lstat_below (name : Text) (more : Path) :
    lstat host root (root ++ name :: more) = find host name more := by
  have below : root.isPrefixOf (root ++ name :: more) = true :=
    List.isPrefixOf_iff_prefix.mpr (List.prefix_append root _)
  rw [lstat, if_pos below, List.drop_left]

theorem lstat_release {tree : Tree} (mem : tree ∈ host.releases) :
    lstat host root (root ++ [tree.entry.name]) = some tree.entry.inode := by
  rw [lstat_below, find_release mem]
  rfl

theorem lstat_inside {tree : Tree} (mem : tree ∈ host.releases) (name : Text) :
    lstat host root (root ++ [tree.entry.name] ++ [name]) =
      if tree.entry.inode.isDirectory then tree.contents.find [name] else none := by
  rw [List.append_assoc, List.singleton_append, lstat_below, find_release mem]
  rfl

theorem release_of_lstat {name : Text} {inode : Inode}
    (h : lstat host root (root ++ [name]) = some inode) :
    ∃ tree ∈ host.releases, tree.entry.name = name := by
  rw [lstat_below] at h
  obtain ⟨tree, found, -⟩ := Option.bind_eq_some_iff.mp h
  exact ⟨tree, List.mem_of_find?_eq_some found, by simpa using List.find?_some found⟩

/-! ## The checks -/

theorem resolve_ok {path resolved : Path} :
    resolve host root platform path = .ok resolved ↔
      realpath (lstat host root) platform.depth [] path = some resolved := by
  unfold resolve
  cases realpath (lstat host root) platform.depth [] path <;> simp

theorem release_path_ok {path resolved : Path}
    (h : release_path platform host path root = .ok resolved) :
    resolved = path ∧ path.dropLast = root ∧ SHA (baseName path) = true ∧
      is_dir host root path = true ∧ ismount host root path = false := by
  obtain ⟨real, -, rest⟩ := Checks.bind_ok.mp h
  obtain ⟨safe, same⟩ := (Checks.guard_ok Checks.error_ok).mp rest
  obtain rfl := Except.ok.inj same
  push Not at safe
  obtain ⟨-, rfl, parent, named, directory, single⟩ := safe
  exact ⟨rfl, parent, by simpa using named, by simpa using directory, by simpa using single⟩

/-- A path that passes is that of an entry of the releases directory. -/
theorem release_of_path {path resolved : Path}
    (h : release_path platform host path root = .ok resolved) :
    ∃ tree ∈ host.releases, resolved = root ++ [tree.entry.name] := by
  obtain ⟨rfl, parent, named, directory, -⟩ := release_path_ok h
  have nonempty : resolved ≠ [] := by
    rintro rfl
    revert named
    decide
  have split : resolved = root ++ [resolved.getLast nonempty] := by
    rw [← parent, List.dropLast_append_getLast]
  obtain ⟨inode, found⟩ : ∃ inode, lstat host root resolved = some inode := by
    unfold is_dir at directory
    cases found : lstat host root resolved with
    | none =>
        rw [found] at directory
        cases directory
    | some inode => exact ⟨inode, rfl⟩
  rw [split] at found
  obtain ⟨tree, mem, same⟩ := release_of_lstat found
  exact ⟨tree, mem, by rw [same, ← split]⟩

theorem protected_path_ok {name : Text} {path : Path}
    (h : protected_path platform host root name = .ok path) :
    is_symlink host root (root.dropLast ++ [name]) = true ∧
      realpath (lstat host root) platform.depth [] (root.dropLast ++ [name]) = some path ∧
      ∃ tree ∈ host.releases, path = root ++ [tree.entry.name] := by
  obtain ⟨link, rest⟩ := (Checks.guard_ok Checks.error_ok).mp h
  obtain ⟨target, followed, checked⟩ := Checks.bind_ok.mp rest
  have same := (release_path_ok checked).1
  refine ⟨by simpa using link, ?_, release_of_path checked⟩
  rw [same]
  exact resolve_ok.mp followed

def pointers : List Text := [text "current", text "previous"]

/-- What both links lead to. -/
theorem protected_paths_ok {kept : List Path} (h : protected_paths platform host root = .ok kept) :
    kept.Nodup ∧ kept.length ≤ 2 ∧
      (∀ path ∈ kept, ∃ tree ∈ host.releases, path = root ++ [tree.entry.name]) ∧
      ∀ path, path ∈ kept ↔ ∃ name ∈ pointers,
        realpath (lstat host root) platform.depth [] (root.dropLast ++ [name]) = some path := by
  obtain ⟨current, first, rest⟩ := Checks.bind_ok.mp h
  obtain ⟨previous, second, same⟩ := Checks.bind_ok.mp rest
  obtain rfl := Except.ok.inj same
  obtain ⟨-, toCurrent, atCurrent⟩ := protected_path_ok first
  obtain ⟨-, toPrevious, atPrevious⟩ := protected_path_ok second
  refine ⟨List.nodup_dedup _, (List.dedup_sublist _).length_le, ?_, ?_⟩
  · intro path mem
    rcases List.mem_pair.mp (List.mem_dedup.mp mem) with rfl | rfl
    · exact atCurrent
    · exact atPrevious
  · intro path
    rw [List.mem_dedup, List.mem_pair]
    simp only [pointers, List.mem_cons, List.not_mem_nil, or_false, exists_eq_or_imp,
      exists_eq_left, toCurrent, toPrevious, Option.some.injEq]
    exact ⟨Or.imp Eq.symm Eq.symm, Or.imp Eq.symm Eq.symm⟩

/-- Each link is one, and leads to a release. -/
theorem protected_paths_leads {kept : List Path} {name : Text}
    (h : protected_paths platform host root = .ok kept) (mem : name ∈ pointers) :
    is_symlink host root (root.dropLast ++ [name]) = true ∧
      ∃ tree ∈ host.releases,
        realpath (lstat host root) platform.depth [] (root.dropLast ++ [name]) =
          some (root ++ [tree.entry.name]) := by
  obtain ⟨current, first, rest⟩ := Checks.bind_ok.mp h
  obtain ⟨previous, second, -⟩ := Checks.bind_ok.mp rest
  obtain ⟨path, passed⟩ : ∃ path, protected_path platform host root name = .ok path := by
    rcases List.mem_pair.mp mem with rfl | rfl
    · exact ⟨current, first⟩
    · exact ⟨previous, second⟩
  obtain ⟨link, leads, tree, listed, rfl⟩ := protected_path_ok passed
  exact ⟨link, tree, listed, leads⟩

theorem classified_ok {tree : Tree} (mem : tree ∈ host.releases)
    (h : classified platform host root tree = .ok ()) :
    release_path platform host (root ++ [tree.entry.name]) root =
        .ok (root ++ [tree.entry.name]) ∧
      tree.entry.inode.isDirectory = true ∧
      ∃ content, tree.contents.find [text ".release-ready"] = some (.file (some content)) ∧
        Text.strip content = tree.entry.name := by
  obtain ⟨path, passed, rest⟩ := Checks.bind_ok.mp h
  obtain ⟨rfl, -, -, directory, -⟩ := release_path_ok passed
  have isDirectory : tree.entry.inode.isDirectory = true := by
    unfold is_dir at directory
    rw [lstat_release mem] at directory
    cases kind : tree.entry.inode with
    | directory stat => rfl
    | file | symlink =>
        rw [kind] at directory
        cases directory
  refine ⟨passed, isDirectory, ?_⟩
  rw [lstat_inside mem, if_pos isDirectory] at rest
  split at rest
  · cases rest
  · rename_i content found
    obtain ⟨same, -⟩ := (Checks.guard_ok Checks.error_ok).mp rest
    exact ⟨content, found, not_not.mp same⟩
  · cases rest

/-! ## The selection -/

/-- What is not protected, of the listed releases. -/
def unprotected (host : Host) (root : Path) (kept : List Path) : List Tree :=
  host.releases.filter fun tree => !kept.contains (root ++ [tree.entry.name])

theorem select_releases_ok {root : PurePath} {retention : Int} {selected : List Tree}
    (h : select_releases platform host root retention = .ok selected) :
    2 ≤ retention ∧ ∃ kept, protected_paths platform host root.parts = .ok kept ∧
      (∀ tree ∈ host.releases, classified platform host root.parts tree = .ok ()) ∧
      selected = (sortBy age (unprotected host root.parts kept)).drop
        (max 0 (retention - kept.length)).toNat := by
  obtain ⟨-, rest⟩ := (Checks.guard_ok Checks.error_ok).mp h
  obtain ⟨resolved, -, rest⟩ := Checks.bind_ok.mp rest
  obtain ⟨valid, rest⟩ := (Checks.guard_ok Checks.error_ok).mp rest
  obtain ⟨kept, pinned, rest⟩ := Checks.bind_ok.mp rest
  obtain ⟨ready, same⟩ := Checks.check_ok.mp rest
  push Not at valid
  exact ⟨valid.2.2, kept, pinned, Checks.forM_ok.mp ready, (Except.ok.inj same).symm⟩

theorem nodup_paths (host : Host) (root : Path) :
    (host.releases.map fun tree => root ++ [tree.entry.name]).Nodup := by
  have named := host.distinct.map (f := fun name => root ++ [name]) fun a b same => by
    simpa using same
  rwa [List.map_map] at named

/-- Every protected path is that of one release. -/
theorem length_unprotected {kept : List Path} (distinct : kept.Nodup)
    (releases : ∀ path ∈ kept, ∃ tree ∈ host.releases, path = root ++ [tree.entry.name]) :
    (unprotected host root kept).length + kept.length = host.releases.length := by
  set isKept : Tree → Bool := fun tree => kept.contains (root ++ [tree.entry.name]) with isKept_def
  have same : ((host.releases.filter isKept).map fun tree => root ++ [tree.entry.name]).Perm
      kept := by
    rw [List.perm_ext_iff_of_nodup
      ((nodup_paths host root).sublist (List.filter_sublist.map _)) distinct]
    intro path
    rw [List.mem_map]
    constructor
    · rintro ⟨tree, mem, rfl⟩
      simpa [isKept_def] using (List.mem_filter.mp mem).2
    · intro mem
      obtain ⟨tree, listed, rfl⟩ := releases path mem
      exact ⟨tree, List.mem_filter.mpr ⟨listed, by simpa [isKept_def] using mem⟩, rfl⟩
  have counted := same.length_eq
  rw [List.length_map] at counted
  rw [← counted, unprotected, add_comm]
  exact (List.length_eq_length_filter_add isKept).symm

/-- What is kept and what is selected make up all releases. -/
theorem length_selected {root : PurePath} {retention : Int} {selected : List Tree}
    (h : select_releases platform host root retention = .ok selected) :
    host.releases.length - selected.length = min host.releases.length retention.toNat ∧
      selected.length ≤ host.releases.length := by
  obtain ⟨large, kept, pinned, -, rfl⟩ := select_releases_ok h
  obtain ⟨distinct, few, releases, -⟩ := protected_paths_ok pinned
  have total := length_unprotected distinct releases
  rw [List.length_drop, (StableSort.perm_sortBy age _).length_eq]
  omega

theorem selected_unprotected {root : PurePath} {retention : Int} {selected : List Tree}
    {kept : List Path} (h : select_releases platform host root retention = .ok selected)
    (pinned : protected_paths platform host root.parts = .ok kept) {tree : Tree}
    (mem : tree ∈ selected) : tree ∈ host.releases ∧ root.parts ++ [tree.entry.name] ∉ kept := by
  obtain ⟨-, kept', pinned', -, rfl⟩ := select_releases_ok h
  obtain rfl := Except.ok.inj (pinned'.symm.trans pinned)
  have sorted := List.mem_of_mem_drop mem
  rw [StableSort.mem_sortBy] at sorted
  simpa [unprotected] using sorted

theorem nodup_selected {root : PurePath} {retention : Int} {selected : List Tree}
    (h : select_releases platform host root retention = .ok selected) :
    (selected.map fun tree => tree.entry.name).Nodup := by
  obtain ⟨-, kept, -, -, rfl⟩ := select_releases_ok h
  have unsorted : ((unprotected host root.parts kept).map fun tree => tree.entry.name).Nodup :=
    host.distinct.sublist (List.filter_sublist.map _)
  have sorted := ((StableSort.perm_sortBy age (unprotected host root.parts kept)).map
    fun tree => tree.entry.name).nodup_iff.mpr unsorted
  exact sorted.sublist ((List.drop_sublist _ _).map _)

/-- An unprotected release that is not selected is younger than every selected one. -/
theorem selected_oldest {root : PurePath} {retention : Int} {selected : List Tree}
    {kept : List Path} (h : select_releases platform host root retention = .ok selected)
    (pinned : protected_paths platform host root.parts = .ok kept) {young old : Tree}
    (listed : young ∈ host.releases) (free : root.parts ++ [young.entry.name] ∉ kept)
    (stays : young ∉ selected) (goes : old ∈ selected) : age young < age old := by
  obtain ⟨-, kept', pinned', -, rfl⟩ := select_releases_ok h
  obtain rfl := Except.ok.inj (pinned'.symm.trans pinned)
  set sorted := sortBy age (unprotected host root.parts kept') with sorted_def
  set first := (max 0 (retention - kept'.length)).toNat
  have ordered : (sorted.take first ++ sorted.drop first).Pairwise fun a b => age a ≤ age b := by
    rw [List.take_append_drop]
    exact StableSort.ascending_sortBy age _
  have early : young ∈ sorted.take first := by
    have mem : young ∈ sorted := by
      rw [sorted_def, StableSort.mem_sortBy]
      simpa [unprotected] using And.intro listed free
    rw [← List.take_append_drop first sorted, List.mem_append] at mem
    exact mem.resolve_right stays
  refine lt_of_le_of_ne ((List.pairwise_append.mp ordered).2.2 young early old goes) fun same => ?_
  -- the names tell releases of one age apart
  have named : young.entry.name = old.entry.name := congrArg (fun key => (ofLex key).2) same
  have oldListed : old ∈ host.releases := (selected_unprotected h pinned goes).1
  obtain rfl := List.inj_on_of_nodup_map host.distinct listed oldListed named
  exact stays goes

end PackageRegistry.Deploy
