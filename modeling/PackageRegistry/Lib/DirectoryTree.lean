import PackageRegistry.Lib.Text

/-! # Directory trees with mounts

What `lstat`, `os.scandir`, `realpath`, `os.walk` and `shutil.rmtree` make of a tree of
directories, on which other file systems may be mounted. A mount point is seen from outside
only by the device and the inode of what is mounted there.
-/

namespace Unix

/-- The components of an absolute path, from `/` downwards. -/
abbrev Path := List Text

/-- A path as written: from `/`, or from wherever it is read. -/
structure PurePath where
  absolute : Bool
  parts : List Text
  deriving DecidableEq

/-- `str` of an absolute path. -/
def shown (path : Path) : Text :=
  if path = [] then text "/" else (path.map fun name => text "/" ++ name).flatten

structure Stat where
  device : Nat
  inode : Nat
  mtime : Int
  /-- Whether something is mounted here; device and inode are then those of its top. -/
  mounted : Bool
  /-- Whether it can be opened and listed. -/
  readable : Bool
  deriving DecidableEq

/-- `os.path.ismount` of a directory, given what holds it. -/
def Stat.ismount (stat parent : Stat) : Bool :=
  stat.device != parent.device || stat.inode == parent.inode

inductive Inode where
  /-- A regular file, with its text if that can be read. -/
  | file (content : Option Text)
  | symlink (target : PurePath)
  | directory (stat : Stat)
  deriving DecidableEq

def Inode.isDirectory : Inode → Bool
  | .directory _ => true
  | _ => false

def Inode.isMountPoint : Inode → Bool
  | .directory stat => stat.mounted
  | _ => false

structure Entry where
  name : Text
  inode : Inode
  /-- Whether the kernel refuses to remove it, whatever it is. -/
  held : Bool
  deriving DecidableEq

/-- What `os.scandir` lists, each entry with its own contents if it is a directory. -/
inductive Listing where
  | nil
  | cons (entry : Entry) (contents rest : Listing)
  deriving DecidableEq

namespace Listing

/-- `lstat` of a path from here, with no symbolic link on the way. -/
def find : Listing → Path → Option Inode
  | nil, _ => none
  | cons _ _ _, [] => none
  | cons entry contents rest, name :: more =>
      if entry.name = name then
        if more = [] then some entry.inode
        else if entry.inode.isDirectory then contents.find more
        else none
      else rest.find (name :: more)

/-- Whether a directory in it, however deep, is a mount point. -/
def holdsMount : Listing → Bool
  | nil => false
  | cons entry contents rest =>
      entry.inode.isMountPoint || (entry.inode.isDirectory && contents.holdsMount) ||
        rest.holdsMount

/-! ## Looking for mounts -/

/-- The first directory listed here that `os.path.ismount` calls a mount. -/
def mountAmong (parent : Stat) (path : Path) : Listing → Option Path
  | nil => none
  | cons entry _ rest =>
      match entry.inode with
      | .directory stat =>
          if stat.ismount parent then some (path ++ [entry.name])
          else rest.mountAmong parent path
      | _ => rest.mountAmong parent path

/-- The rest of `os.walk`, below this level: it passes over what it cannot list. -/
def mountBelow (path : Path) : Listing → Option Path
  | nil => none
  | cons entry contents rest =>
      let here :=
        match entry.inode with
        | .directory stat =>
            if stat.readable then
              (contents.mountAmong stat (path ++ [entry.name])).or
                (contents.mountBelow (path ++ [entry.name]))
            else none
        | _ => none
      here.or (rest.mountBelow path)

/-- The first mount that a walk over a directory comes to. -/
def mountIn (stat : Stat) (path : Path) (contents : Listing) : Option Path :=
  if stat.readable then (contents.mountAmong stat path).or (contents.mountBelow path) else none

end Listing

/-! ## Removal -/

/-- What is left of an entry's contents after an attempt to remove it, given what clearing
them left; nothing if the entry is gone. A mount point is busy even when it is empty. -/
def Entry.removed (entry : Entry) (contents : Listing) (cleared : Listing × Bool) :
    Option Listing :=
  match entry.inode with
  | .directory stat =>
      if stat.readable = false then some contents
      else if cleared.2 = false then some cleared.1
      else if stat.mounted || entry.held then some cleared.1
      else none
  | _ => if entry.held then some contents else none

/-- Removing everything listed, in order, up to the first entry that stays; whether
none did. -/
def Listing.clear : Listing → Listing × Bool
  | .nil => (.nil, true)
  | .cons entry contents rest =>
      match entry.removed contents contents.clear with
      | none => rest.clear
      | some left => (.cons entry left rest, false)

/-- A directory or file with all below it. -/
structure Tree where
  entry : Entry
  contents : Listing
  deriving DecidableEq

/-- `shutil.rmtree`, which stops at the first failure: what is left. The time stamps of
what is left are not followed. -/
def Tree.rmtree (tree : Tree) : Option Tree :=
  (tree.entry.removed tree.contents tree.contents.clear).map fun left =>
    { tree with contents := left }

theorem rmtree_entry {tree left : Tree} (h : tree.rmtree = some left) :
    left.entry = tree.entry := by
  obtain ⟨contents, -, rfl⟩ := Option.map_eq_some_iff.mp h
  rfl

/-! ## Following symbolic links -/

section

variable (lstat : Path → Option Inode)

/-- `realpath` in its strict form, with `jump` for the links it meets. -/
def follow (jump : Path → List Text → Option Path) : Path → List Text → Option Path
  | here, [] => some here
  | here, name :: rest =>
      if name = text ".." then follow jump here.dropLast rest
      else
        match lstat (here ++ [name]) with
        | none => none
        | some (.symlink target) =>
            match jump (if target.absolute then [] else here) target.parts with
            | none => none
            | some there => follow jump there rest
        | some _ => follow jump (here ++ [name]) rest

/-- `realpath`, with at most so many links open within one another. -/
def realpath : Nat → Path → List Text → Option Path
  | 0 => follow lstat fun _ _ => none
  | depth + 1 => follow lstat (realpath depth)

end

end Unix
