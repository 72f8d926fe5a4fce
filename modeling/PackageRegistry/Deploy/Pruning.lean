import PackageRegistry.Deploy.Selection

/-! # What pruning removes

Everything is looked at before anything is removed, but through `os.path.ismount`: that
misses a directory mounted from the file system it lies in, and what is mounted below a
directory that cannot be listed.
-/

namespace PackageRegistry.Deploy

open Unix

variable {platform : Platform}

/-! ## One removal -/

theorem mem_without {host : Host} {tree other : Tree} :
    other ∈ (host.without tree).releases ↔
      other ∈ host.releases ∧ other.entry.name ≠ tree.entry.name := by
  simp [Host.without]

theorem mem_leaving {host : Host} {left other : Tree} (mem : other ∈ host.releases)
    (differs : other.entry.name ≠ left.entry.name) : other ∈ (host.leaving left).releases :=
  List.mem_map.mpr ⟨other, mem, if_neg differs⟩

/-- What is left of a release stands in its place. -/
theorem leaving_mem {host : Host} {tree left : Tree} (mem : tree ∈ host.releases)
    (same : left.entry = tree.entry) : left ∈ (host.leaving left).releases := by
  refine List.mem_map.mpr ⟨tree, mem, ?_⟩
  rw [if_pos (by rw [same]), ← same]

theorem leaving_self {host : Host} {tree : Tree} (mem : tree ∈ host.releases) :
    host.leaving tree = host := by
  obtain ⟨outside, releases, distinct⟩ := host
  simp only [Host.leaving, Host.mk.injEq, true_and]
  refine (List.map_congr_left fun other listed => ?_).trans releases.map_id
  split
  · rename_i same
    rw [List.inj_on_of_nodup_map distinct listed mem same]
    rfl
  · rfl

/-! ## The loop -/

/-- Releases that are not selected are as they were, however the loop ends. -/
theorem delete_spares {root : Path} {selected : List Tree} {host : Host} {tree : Tree}
    (mem : tree ∈ host.releases)
    (other : tree.entry.name ∉ selected.map fun t => t.entry.name) :
    tree ∈ (delete platform root host selected).1.releases := by
  induction selected generalizing host with
  | nil => exact mem
  | cons first rest ih =>
      rw [List.map_cons, List.mem_cons, not_or] at other
      obtain ⟨differs, later⟩ := other
      simp only [delete]
      cases still_inactive platform host root first with
      | error e => exact mem
      | ok =>
          cases gone : first.rmtree with
          | some left => exact mem_leaving mem (by rwa [rmtree_entry gone])
          | none => exact ih (mem_without.mpr ⟨mem, differs⟩) later

/-- A loop that comes to its end has removed exactly the selected releases. -/
theorem delete_ok {root : Path} {selected : List Tree} {host after : Host} {deleted : List Text}
    (h : delete platform root host selected = (after, .ok deleted)) :
    after.releases = host.releases.filter fun tree =>
      !(selected.map fun t => t.entry.name).contains tree.entry.name := by
  induction selected generalizing host deleted with
  | nil =>
      obtain ⟨rfl, -⟩ := Prod.mk.inj h
      simp
  | cons first rest ih =>
      simp only [delete] at h
      cases checked : still_inactive platform host root first with
      | error e =>
          rw [checked] at h
          cases (Prod.mk.inj h).2
      | ok =>
          rw [checked] at h
          cases gone : first.rmtree with
          | some left =>
              rw [gone] at h
              cases (Prod.mk.inj h).2
          | none =>
              rw [gone] at h
              obtain ⟨same, result⟩ := Prod.mk.inj h
              obtain ⟨names, ended, -⟩ := Checks.map_ok.mp result
              rw [ih (Prod.ext same ended)]
              simp only [Host.without, List.filter_filter, List.map_cons, List.contains_cons,
                Bool.not_or]
              refine List.filter_congr fun tree _ => ?_
              rw [Bool.and_comm]
              rfl

/-- The loop removes nothing but what is in its list. -/
theorem delete_names {root : Path} {selected : List Tree} {host : Host} {name : Text}
    (h : name ∈ (delete platform root host selected).1.releases.map fun t => t.entry.name) :
    name ∈ host.releases.map fun t => t.entry.name := by
  induction selected generalizing host with
  | nil => exact h
  | cons first rest ih =>
      simp only [delete] at h
      cases checked : still_inactive platform host root first with
      | error e => simpa only [checked] using h
      | ok =>
          rw [checked] at h
          cases gone : first.rmtree with
          | some left =>
              rw [gone] at h
              simp only [Host.leaving, List.map_map] at h
              obtain ⟨tree, mem, rfl⟩ := List.mem_map.mp h
              refine List.mem_map.mpr ⟨tree, mem, ?_⟩
              simp only [Function.comp]
              split <;> rfl
          | none =>
              rw [gone] at h
              obtain ⟨tree, mem, rfl⟩ := List.mem_map.mp (ih h)
              exact List.mem_map.mpr ⟨tree, (mem_without.mp mem).1, rfl⟩

/-- A release that is selected passes the checks again when it comes first. -/
theorem still_inactive_ok {host : Host} {root : PurePath} {retention : Int}
    {selected : List Tree} (h : select_releases platform host root retention = .ok selected)
    {tree : Tree} (mem : tree ∈ selected) :
    still_inactive platform host root.parts tree = .ok () := by
  obtain ⟨-, kept, pinned, ready, -⟩ := select_releases_ok h
  obtain ⟨listed, free⟩ := selected_unprotected h pinned mem
  have passed := (classified_ok listed (ready tree listed)).1
  simp only [still_inactive, passed, pinned, Checks.ok_bind, if_neg free]

/-- A loop whose first removal has any effect leaves another host. -/
theorem delete_changes {host : Host} {root : PurePath} {retention : Int} {first : Tree}
    {rest : List Tree} (h : select_releases platform host root retention = .ok (first :: rest))
    (effect : first.rmtree ≠ some first) :
    (delete platform root.parts host (first :: rest)).1 ≠ host := by
  obtain ⟨-, kept, pinned, -, -⟩ := select_releases_ok h
  have listed := (selected_unprotected h pinned List.mem_cons_self).1
  intro unchanged
  rw [delete, still_inactive_ok h List.mem_cons_self] at unchanged
  cases gone : first.rmtree with
  | some left =>
      simp only [gone] at unchanged
      have entry := rmtree_entry gone
      have stands := leaving_mem listed entry
      rw [unchanged] at stands
      have same := List.inj_on_of_nodup_map host.distinct stands listed (by rw [entry])
      rw [gone, same] at effect
      exact effect rfl
  | none =>
      simp only [gone] at unchanged
      have named : first.entry.name ∈
          (delete platform root.parts (host.without first) rest).1.releases.map
            fun t => t.entry.name := by
        rw [unchanged]
        exact List.mem_map_of_mem listed
      obtain ⟨tree, mem, same⟩ := List.mem_map.mp (delete_names named)
      exact (mem_without.mp mem).2 same

/-! ## What pruning is for -/

section

variable (platform) (host : Host) (root : Path)

/-- One of the two links leads to the release. -/
def Pinned (tree : Tree) : Prop :=
  ∃ name ∈ pointers, realpath (lstat host root) platform.depth [] (root.dropLast ++ [name]) =
    some (root ++ [tree.entry.name])

/-- One of the two is no link, or does not lead to an entry of the directory. -/
def Astray (name : Text) : Prop :=
  is_symlink host root (root.dropLast ++ [name]) = false ∨
    ∀ tree ∈ host.releases,
      realpath (lstat host root) platform.depth [] (root.dropLast ++ [name]) ≠
        some (root ++ [tree.entry.name])

end

/-- An entry that is not a ready release in a directory of its own. -/
def Anomalous (tree : Tree) : Prop :=
  SHA tree.entry.name = false ∨ tree.entry.inode.isDirectory = false ∨
    tree.entry.inode.isMountPoint = true ∨
    ∀ content, tree.contents.find [text ".release-ready"] = some (.file (some content)) →
      Text.strip content ≠ tree.entry.name

section

variable (platform) (host : Host) (root : PurePath) (retention : Int)

/-- A release that is to be removed contains a mounted directory. -/
def MountSelected : Prop :=
  ∃ selected, select_releases platform host root retention = .ok selected ∧
    ∃ tree ∈ selected, tree.contents.holdsMount = true

structure SafeAndExact : Prop where
  spares : ∀ tree ∈ host.releases, Pinned platform host root.parts tree →
    tree ∈ (prune platform host root retention).1.releases
  remaining : (prune platform host root retention).2.isOk = true →
    (prune platform host root retention).1.releases.length =
      min host.releases.length retention.toNat
  oldest : (prune platform host root retention).2.isOk = true →
    ∀ old ∈ host.releases, old ∉ (prune platform host root retention).1.releases →
      ∀ young ∈ (prune platform host root retention).1.releases,
        ¬Pinned platform host root.parts young → age young < age old
  refuses : (∃ tree ∈ host.releases, Anomalous tree) ∨
      (∃ name ∈ pointers, Astray platform host root.parts name) ∨
      MountSelected platform host root retention →
    (prune platform host root retention).1 = host
  settled : (prune platform host root retention).2.isOk = true →
    (prune platform (prune platform host root retention).1 root retention).1 =
      (prune platform host root retention).1

/-- Something is mounted on a release, or inside one that is to be removed, and every walk
passes it by; the first removal is not stuck at once. -/
def MountOverlooked : Prop :=
  platform.avoids_symlink_attacks = true ∧
    ∃ first rest, select_releases platform host root retention = .ok (first :: rest) ∧
      mounted root.parts (first :: rest) = none ∧ first.rmtree ≠ some first ∧
      ((∃ tree ∈ host.releases, tree.entry.inode.isMountPoint = true) ∨
        ∃ tree ∈ first :: rest, tree.contents.holdsMount = true)

end

/-! ## Each part of it -/

section

variable {host : Host} {root : PurePath} {retention : Int}

/-- A run that ends well has deleted the selection. -/
theorem prune_ok (h : (prune platform host root retention).2.isOk = true) :
    ∃ selected, select_releases platform host root retention = .ok selected ∧
      (prune platform host root retention).1.releases = host.releases.filter fun tree =>
        !(selected.map fun t => t.entry.name).contains tree.entry.name := by
  obtain ⟨deleted, ended⟩ := Checks.exists_ok h
  unfold prune at ended ⊢
  split at ended
  · cases ended
  · rename_i safely
    rw [if_neg safely]
    cases chosen : select_releases platform host root retention with
    | error e =>
        rw [chosen] at ended
        cases ended
    | ok selected =>
        rw [chosen] at ended
        cases walked : mounted root.parts selected with
        | some child =>
            simp only [walked] at ended
            cases ended
        | none =>
            simp only [walked] at ended ⊢
            exact ⟨selected, rfl, delete_ok (Prod.ext rfl ended)⟩

/-- However a run ends, a release that was not selected is as it was. -/
theorem prune_spares {tree : Tree} (mem : tree ∈ host.releases)
    (other : ∀ selected, select_releases platform host root retention = .ok selected →
      tree ∉ selected) : tree ∈ (prune platform host root retention).1.releases := by
  unfold prune
  split
  · exact mem
  · cases chosen : select_releases platform host root retention with
    | error e => exact mem
    | ok selected =>
        obtain ⟨-, kept, pinned, -, -⟩ := select_releases_ok chosen
        cases walked : mounted root.parts selected with
        | some child => simpa only [walked] using mem
        | none =>
            simp only [walked]
            refine delete_spares mem fun named => ?_
            obtain ⟨twin, goes, same⟩ := List.mem_map.mp named
            have listed := (selected_unprotected chosen pinned goes).1
            obtain rfl := List.inj_on_of_nodup_map host.distinct listed mem same
            exact other selected chosen goes

/-- Without a selection nothing happens. -/
theorem prune_refused {e : Raised} (h : select_releases platform host root retention = .error e) :
    (prune platform host root retention).1 = host := by
  unfold prune
  rw [h]
  split <;> rfl

theorem not_selected_of_pinned {tree : Tree} (pin : Pinned platform host root.parts tree)
    {selected : List Tree}
    (h : select_releases platform host root retention = .ok selected) : tree ∉ selected := by
  obtain ⟨-, kept, pinned, -, -⟩ := select_releases_ok h
  intro mem
  exact (selected_unprotected h pinned mem).2
    (((protected_paths_ok pinned).2.2.2 _).mpr pin)

theorem prune_remaining (h : (prune platform host root retention).2.isOk = true) :
    (prune platform host root retention).1.releases.length =
      min host.releases.length retention.toNat := by
  obtain ⟨selected, chosen, left⟩ := prune_ok h
  obtain ⟨count, few⟩ := length_selected chosen
  obtain ⟨-, kept, pinned, -, -⟩ := select_releases_ok chosen
  set gone : Tree → Bool := fun tree =>
    (selected.map fun t => t.entry.name).contains tree.entry.name with gone_def
  have names : ((host.releases.filter gone).map fun tree => tree.entry.name).Perm
      (selected.map fun tree => tree.entry.name) := by
    rw [List.perm_ext_iff_of_nodup (host.distinct.sublist (List.filter_sublist.map _))
      (nodup_selected chosen)]
    intro name
    constructor
    · intro mem
      obtain ⟨tree, listed, rfl⟩ := List.mem_map.mp mem
      simpa only [gone_def, List.contains_iff_mem] using (List.mem_filter.mp listed).2
    · intro mem
      obtain ⟨tree, goes, rfl⟩ := List.mem_map.mp mem
      have listed := (selected_unprotected chosen pinned goes).1
      exact List.mem_map_of_mem (List.mem_filter.mpr
        ⟨listed, List.contains_iff_mem.mpr (List.mem_map_of_mem goes)⟩)
  have total := List.length_eq_length_filter_add (l := host.releases) gone
  have removed := names.length_eq
  rw [List.length_map, List.length_map] at removed
  have stays : (prune platform host root retention).1.releases =
      host.releases.filter fun tree => !gone tree := left
  rw [stays]
  omega

theorem prune_oldest (h : (prune platform host root retention).2.isOk = true) {old young : Tree}
    (listed : old ∈ host.releases)
    (gone : old ∉ (prune platform host root retention).1.releases)
    (stays : young ∈ (prune platform host root retention).1.releases)
    (free : ¬Pinned platform host root.parts young) : age young < age old := by
  obtain ⟨selected, chosen, left⟩ := prune_ok h
  obtain ⟨-, kept, pinned, -, -⟩ := select_releases_ok chosen
  rw [left, List.mem_filter] at stays
  have selectedOld : old ∈ selected := by
    by_contra other
    exact gone (prune_spares listed fun again same => by
      rwa [← Except.ok.inj (chosen.symm.trans same)])
  have unselected : young ∉ selected := by
    intro mem
    have named : (selected.map fun t => t.entry.name).contains young.entry.name = true :=
      List.contains_iff_mem.mpr (List.mem_map_of_mem mem)
    rw [named] at stays
    exact absurd stays.2 (by decide)
  have unpinned : root.parts ++ [young.entry.name] ∉ kept := fun mem =>
    free (((protected_paths_ok pinned).2.2.2 _).mp mem)
  exact selected_oldest chosen pinned stays.1 unpinned unselected selectedOld

theorem prune_settled (h : (prune platform host root retention).2.isOk = true) :
    (prune platform (prune platform host root retention).1 root retention).1 =
      (prune platform host root retention).1 := by
  have few := prune_remaining h
  set after := (prune platform host root retention).1
  cases chosen : select_releases platform after root retention with
  | error e => exact prune_refused chosen
  | ok selected =>
      have count := length_selected chosen
      have none : selected = [] := List.eq_nil_of_length_eq_zero (by omega)
      unfold prune
      rw [chosen, none]
      split <;> rfl

theorem select_refuses_anomalous {tree : Tree} (mem : tree ∈ host.releases)
    (h : Anomalous tree) (single : tree.entry.inode.isMountPoint = false) (selected : List Tree) :
    select_releases platform host root retention ≠ .ok selected := by
  intro chosen
  obtain ⟨-, -, -, ready, -⟩ := select_releases_ok chosen
  obtain ⟨passed, directory, content, marker, stripped⟩ := classified_ok mem (ready tree mem)
  obtain ⟨-, -, named, -, -⟩ := release_path_ok passed
  rcases h with unnamed | other | mount | unmarked
  · rw [baseName, List.getLastD_concat, unnamed] at named
    cases named
  · rw [directory] at other
    cases other
  · rw [single] at mount
    cases mount
  · exact unmarked content marker stripped

theorem select_refuses_astray {name : Text} (mem : name ∈ pointers)
    (h : Astray platform host root.parts name) (selected : List Tree) :
    select_releases platform host root retention ≠ .ok selected := by
  intro chosen
  obtain ⟨-, kept, pinned, -, -⟩ := select_releases_ok chosen
  obtain ⟨link, tree, listed, leads⟩ := protected_paths_leads pinned mem
  rcases h with nothing | nowhere
  · rw [link] at nothing
    cases nothing
  · exact nowhere tree listed leads

/-- Whatever refuses the selection leaves the host alone, and so does a first removal that is
stuck at once. -/
theorem prune_unchanged
    (h : ∀ first rest, platform.avoids_symlink_attacks = true →
      select_releases platform host root retention = .ok (first :: rest) →
      mounted root.parts (first :: rest) = none → first.rmtree = some first) :
    (prune platform host root retention).1 = host := by
  unfold prune
  split
  · rfl
  · rename_i safely
    cases chosen : select_releases platform host root retention with
    | error e => rfl
    | ok selected =>
        cases walked : mounted root.parts selected with
        | some child => simp only [walked]
        | none =>
            simp only [walked]
            cases selected with
            | nil => rfl
            | cons first rest =>
                have stuck := h first rest (by simpa using safely) chosen walked
                obtain ⟨-, kept, pinned, -, -⟩ := select_releases_ok chosen
                rw [delete, still_inactive_ok chosen List.mem_cons_self]
                simp only [stuck]
                exact leaving_self (selected_unprotected chosen pinned List.mem_cons_self).1

theorem prune_refuses (seen : ¬MountOverlooked platform host root retention)
    (h : (∃ tree ∈ host.releases, Anomalous tree) ∨
      (∃ name ∈ pointers, Astray platform host root.parts name) ∨
      MountSelected platform host root retention) :
    (prune platform host root retention).1 = host := by
  apply prune_unchanged
  intro first rest safely chosen walked
  by_contra effect
  refine seen ⟨safely, first, rest, chosen, walked, effect, ?_⟩
  rcases h with ⟨tree, mem, anomalous⟩ | ⟨name, mem, astray⟩ | ⟨selected, same, holds⟩
  · by_cases mount : tree.entry.inode.isMountPoint = true
    · exact .inl ⟨tree, mem, mount⟩
    · exact absurd chosen
        (select_refuses_anomalous mem anomalous (Bool.eq_false_iff.mpr mount) _)
  · exact absurd chosen (select_refuses_astray mem astray _)
  · obtain rfl := Except.ok.inj (chosen.symm.trans same)
    exact .inr holds

end

/-- Three releases, the oldest with a directory mounted from the same file system. -/
def boundHost : Host where
  outside := fun path =>
    let directory (inode : Nat) : Option Inode := some (.directory ⟨1, inode, 0, false, true⟩)
    let link (digit : Char) : Option Inode :=
      some (.symlink ⟨false, [text "releases", List.replicate 40 (.ofChar digit)]⟩)
    if path = [] then directory 2
    else if path = [text "srv"] then directory 3
    else if path = [text "srv", text "releases"] then directory 4
    else if path = [text "srv", text "current"] then link '0'
    else if path = [text "srv", text "previous"] then link '1'
    else none
  releases :=
    let release (digit : Char) (inode : Nat) (rest : Listing) : Tree :=
      { entry := ⟨List.replicate 40 (.ofChar digit),
          .directory ⟨1, inode, 10 - inode, false, true⟩, false⟩
        contents := .cons ⟨text ".release-ready",
          .file (some (List.replicate 40 (.ofChar digit))), false⟩ .nil rest }
    [release '0' 5 .nil, release '1' 6 .nil,
      release '2' 7 (.cons ⟨text "artifacts", .directory ⟨1, 9, 0, true, true⟩, false⟩
        (.cons ⟨text "immutable.ocp", .file (some (text "immutable")), false⟩ .nil .nil) .nil)]
  distinct := by decide

def boundRoot : PurePath := ⟨true, [text "srv", text "releases"]⟩

end PackageRegistry.Deploy
