import Mathlib.Data.Prod.Lex
import Mathlib.Data.List.Nodup
import PackageRegistry.Lib.Checks
import PackageRegistry.Lib.DirectoryTree
import PackageRegistry.Lib.Json
import PackageRegistry.Lib.StableSort

/-! # Release retention

The releases of a deployment are directories named by their commits, beside the links
`current` and `previous`. Pruning looks at all of them before it removes the oldest.
-/

namespace PackageRegistry.Deploy

open Unix

inductive Raised where
  | os_error
  /-- A file whose text cannot be read. -/
  | unread
  | value_error (message : Text)
  | runtime_error (message : Text)
  deriving DecidableEq

/-- What the interpreter and the machine under it decide. -/
structure Platform where
  avoids_symlink_attacks : Bool
  /-- How many links `realpath` keeps open within one another. -/
  depth : Nat

structure Host where
  /-- What `lstat` finds, the entries of the releases directory apart. -/
  outside : Path → Option Inode
  /-- The entries of the releases directory, in the order of `iterdir`. -/
  releases : List Tree
  distinct : (releases.map fun tree => tree.entry.name).Nodup

/-! ## What the host answers -/

section

variable (host : Host) (root : Path)

/-- The entry of this name, and below it the rest of the path. -/
def find (name : Text) (more : Path) : Option Inode :=
  (host.releases.find? fun tree => tree.entry.name == name).bind fun tree =>
    if more = [] then some tree.entry.inode
    else if tree.entry.inode.isDirectory then tree.contents.find more
    else none

def lstat (path : Path) : Option Inode :=
  if root.isPrefixOf path then
    match path.drop root.length with
    | [] => host.outside path
    | name :: more => find host name more
  else host.outside path

def is_symlink (path : Path) : Bool :=
  match lstat host root path with
  | some (.symlink _) => true
  | _ => false

def is_dir (path : Path) : Bool :=
  match lstat host root path with
  | some (.directory _) => true
  | _ => false

def ismount (path : Path) : Bool :=
  match lstat host root path, lstat host root path.dropLast with
  | some (.directory stat), some (.directory parent) => stat.ismount parent
  | _, _ => false

def resolve (platform : Platform) (path : Path) : Except Raised Path :=
  match realpath (lstat host root) platform.depth [] path with
  | some resolved => .ok resolved
  | none => .error .os_error

end

/-- `[0-9a-f]{40}` -/
def SHA (name : Text) : Bool := name.length == 40 && name.all CodePoint.isHexLower

def baseName (path : Path) : Text := path.getLastD []

def showPath (path : PurePath) : Text :=
  if path.absolute then shown path.parts
  else if path.parts = [] then text "."
  else [.ofChar '/'].intercalate path.parts

/-! ## `select_releases` -/

section

variable (platform : Platform) (host : Host)

def release_path (path root : Path) : Except Raised Path := do
  let resolved ← resolve host root platform path
  if is_symlink host root path ∨ resolved ≠ path ∨ resolved.dropLast ≠ root ∨
      SHA (baseName path) = false ∨ is_dir host root path = false ∨ ismount host root path then
    .error (.value_error (text "Unsafe release path: " ++ shown path))
  else .ok resolved

/-- One round of the loop of `protected_paths`. -/
def protected_path (root : Path) (name : Text) : Except Raised Path := do
  let link := root.dropLast ++ [name]
  if is_symlink host root link = false then
    .error (.value_error (text "Missing or non-symlink protection pointer: " ++ shown link))
  else
    let target ← resolve host root platform link
    release_path platform host target root

def protected_paths (root : Path) : Except Raised (List Path) := do
  let current ← protected_path platform host root (text "current")
  let previous ← protected_path platform host root (text "previous")
  .ok [current, previous].dedup

/-- What the loop of `select_releases` demands of an entry. -/
def classified (root : Path) (tree : Tree) : Except Raised Unit := do
  let entry := root ++ [tree.entry.name]
  let _ ← release_path platform host entry root
  match lstat host root (entry ++ [text ".release-ready"]) with
  | some (.file none) => .error .unread
  | some (.file (some content)) =>
      if Text.strip content ≠ tree.entry.name then
        .error (.value_error
          (text "Unclassified release with mismatched ready marker: " ++ shown entry))
      else .ok ()
  | _ =>
      .error (.value_error
        (text "Unclassified release without regular ready marker: " ++ shown entry))

def mtime (tree : Tree) : Int :=
  match tree.entry.inode with
  | .directory stat => stat.mtime
  | _ => 0

/-- Newest first, then by name. -/
def age (tree : Tree) : Int ×ₗ Text := toLex (-mtime tree, tree.entry.name)

def select_releases (root : PurePath) (retention : Int) : Except Raised (List Tree) := do
  let unsafe_root : Except Raised (List Tree) :=
    .error (.value_error (text "Unsafe release root or retention: " ++ showPath root ++
      text ", " ++ Json.ofInt retention))
  if root.absolute = false ∨ baseName root.parts ≠ text "releases" ∨
      root.parts.dropLast = [] then unsafe_root
  else
    let resolved ← resolve host root.parts platform root.parts
    if resolved ≠ root.parts ∨ is_dir host root.parts root.parts = false ∨ retention < 2 then
      unsafe_root
    else
      let kept ← protected_paths platform host root.parts
      host.releases.forM (classified platform host root.parts)
      let releases := host.releases.filter fun tree =>
        !kept.contains (root.parts ++ [tree.entry.name])
      .ok ((sortBy age releases).drop (max 0 (retention - kept.length)).toNat)

end

/-! ## `prune` -/

namespace Host

/-- The host without one release. -/
def without (host : Host) (tree : Tree) : Host where
  outside := host.outside
  releases := host.releases.filter fun other => other.entry.name != tree.entry.name
  distinct := host.distinct.sublist (List.filter_sublist.map _)

/-- The host with what is left of a release under its name. -/
def leaving (host : Host) (left : Tree) : Host where
  outside := host.outside
  releases := host.releases.map fun other =>
    if other.entry.name = left.entry.name then { other with contents := left.contents } else other
  distinct := by
    have same : (host.releases.map fun other =>
        if other.entry.name = left.entry.name then { other with contents := left.contents }
        else other).map (fun tree => tree.entry.name) =
        host.releases.map fun tree => tree.entry.name := by
      rw [List.map_map]
      refine List.map_congr_left fun other _ => ?_
      simp only [Function.comp]
      split <;> rfl
    rw [same]
    exact host.distinct

end Host

section

variable (platform : Platform)

/-- The first mount that the walks over the selected releases come to. -/
def mounted (root : Path) (selected : List Tree) : Option Path :=
  selected.findSome? fun tree =>
    match tree.entry.inode with
    | .directory stat => tree.contents.mountIn stat (root ++ [tree.entry.name])
    | _ => none

/-- The checks just before a release is removed. -/
def still_inactive (host : Host) (root : Path) (tree : Tree) : Except Raised Unit := do
  let path := root ++ [tree.entry.name]
  let _ ← release_path platform host path root
  let kept ← protected_paths platform host root
  if path ∈ kept then .error (.value_error (text "Release became protected: " ++ shown path))
  else .ok ()

def delete (root : Path) (host : Host) : List Tree → Host × Except Raised (List Text)
  | [] => (host, .ok [])
  | tree :: rest =>
      match still_inactive platform host root tree with
      | .error e => (host, .error e)
      | .ok () =>
          match tree.rmtree with
          | some left => (host.leaving left, .error .os_error)
          | none =>
              let later := delete root (host.without tree) rest
              (later.1, later.2.map fun deleted => shown (root ++ [tree.entry.name]) :: deleted)

def prune (host : Host) (root : PurePath) (retention : Int) :
    Host × Except Raised (List Text) :=
  if platform.avoids_symlink_attacks = false then
    (host, .error (.runtime_error (text "Safe fd-based recursive removal is required")))
  else
    match select_releases platform host root retention with
    | .error e => (host, .error e)
    | .ok selected =>
        match mounted root.parts selected with
        | some child =>
            (host, .error (.value_error
              (text "Mounted directory inside release: " ++ shown child)))
        | none => delete platform root.parts host selected

end

end PackageRegistry.Deploy
