import Mathlib.Data.List.Infix
import Mathlib.Logic.Function.Basic
import PackageRegistry.Lib.Text

/-! # The part of a POSIX file system that the artifact store uses

Directories, files with inodes, and for both what has reached the disk. Names in
the private staging directory are random and never shared, so a staging file is
addressed by the call that created it. Only the operations of the store are here:
nothing renames or removes a directory, and nothing replaces a file.
-/

namespace PackageRegistry.Store

abbrev Bytes := List UInt8

/-- The components of an absolute path, from `/` downwards. -/
abbrev Path := List Text

/-- One publishing process, or one thread of it. -/
abbrev Pid := Nat

abbrev InodeId := Nat

structure FileSystem where
  /-- The directories below `/`, which is always there. -/
  directory : Path → Bool
  /-- The published files, by their absolute path. -/
  file : Path → Option InodeId
  /-- Whether the directory holding the entry was fsynced since it was made. -/
  entrySynced : Path → Bool
  /-- The staging file of a call, under its private name. -/
  staged : Pid → Option InodeId
  content : InodeId → Bytes
  /-- Whether the file was fsynced since it was last written. -/
  dataSynced : InodeId → Bool
  /-- Inodes from here on are unused. -/
  fresh : InodeId

namespace FileSystem

/-- A disk with nothing but the given directories, all of them durable. -/
def holding (directories : Path → Bool) : FileSystem where
  directory := directories
  file := fun _ => none
  entrySynced := directories
  staged := fun _ => none
  content := fun _ => []
  dataSynced := fun _ => true
  fresh := 0

/-- `os.mkdir`; the answer is whether the directory is new. -/
def mkdir (fs : FileSystem) (path : Path) : FileSystem × Bool :=
  if fs.directory path then (fs, false)
  else
    ({ fs with
        directory := Function.update fs.directory path true
        entrySynced := Function.update fs.entrySynced path false }, true)

/-- `os.fsync` of a directory: every entry in it becomes durable. -/
def fsyncDirectory (fs : FileSystem) (path : Path) : FileSystem :=
  { fs with entrySynced := fun entry =>
      if entry ≠ [] ∧ entry.dropLast = path then true else fs.entrySynced entry }

/-- `os.fsync` of a file. -/
def fsyncFile (fs : FileSystem) (i : InodeId) : FileSystem :=
  { fs with dataSynced := Function.update fs.dataSynced i true }

/-- `os.open` with `O_CREAT | O_EXCL` under a fresh private name. -/
def createStaged (fs : FileSystem) (pid : Pid) : FileSystem :=
  { fs with
      staged := Function.update fs.staged pid (some fs.fresh)
      content := Function.update fs.content fs.fresh []
      dataSynced := Function.update fs.dataSynced fs.fresh false
      fresh := fs.fresh + 1 }

def append (fs : FileSystem) (i : InodeId) (bytes : Bytes) : FileSystem :=
  { fs with
      content := Function.update fs.content i (fs.content i ++ bytes)
      dataSynced := Function.update fs.dataSynced i false }

/-- `os.link` onto a free name. -/
def link (fs : FileSystem) (i : InodeId) (path : Path) : FileSystem :=
  { fs with
      file := Function.update fs.file path (some i)
      entrySynced := Function.update fs.entrySynced path false }

def unlinkStaged (fs : FileSystem) (pid : Pid) : FileSystem :=
  { fs with staged := Function.update fs.staged pid none }

/-- The bytes under a path, if its directories and the file are there. -/
def read (fs : FileSystem) (path : Path) : Option Bytes :=
  if path.dropLast.inits.all fun d => d.isEmpty || fs.directory d then
    (fs.file path).map fs.content
  else none

/-- The published files by path, whatever happened to their directories. -/
def cells (fs : FileSystem) (path : Path) : Option Bytes :=
  (fs.file path).map fs.content

/-- A power loss: entries and data that were not synced are gone. -/
def powerLoss (fs : FileSystem) : FileSystem :=
  { fs with
      directory := fun d => fs.directory d && fs.entrySynced d
      file := fun p => if fs.entrySynced p then fs.file p else none
      staged := fun _ => none
      content := fun i => if fs.dataSynced i then fs.content i else [] }

end FileSystem

end PackageRegistry.Store
