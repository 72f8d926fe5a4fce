import PackageRegistry.Lib.FileSteps
import PackageRegistry.Registry.Build

/-! # How `build` replaces the output

`scripts/build_registry.py` once more, with the file operations: the directory that is generated
beside the output, the swap, and what is put back and removed when a step raises.
-/

namespace PackageRegistry.Replacement

open FileTree Raising FileSteps Checks

/-! ## The output path -/

inductive Part where
  | name (name : Text)
  | up
  deriving DecidableEq

def Part.follow (path : List Text) : Part → List Text
  | .name entry => path ++ [entry]
  | .up => path.dropLast

/-- The last part of a path. Only `.` has none. -/
inductive Last where
  | name (name : Text)
  | up
  | here
  deriving DecidableEq

/-- `output.name` -/
def Last.written : Last → Text
  | .name entry => entry
  | .up => text ".."
  | .here => []

def Last.follow (path : List Text) : Last → List Text
  | .name entry => path ++ [entry]
  | .up => path.dropLast
  | .here => path

/-- `start` is the directory from which no more links are followed: the root, the working
    directory, or where the last link leads. -/
structure Target extends OutputPath where
  start : List Text
  parts : List Part
  last : Last
  resolves : is_symlink = false → resolved_output = last.follow (parts.foldl Part.follow start)

def Target.parents (target : Target) : List (List Text) :=
  target.parts.scanl Part.follow target.start

/-- `output.parent` -/
def Target.parent (target : Target) : List Text := target.parts.foldl Part.follow target.start

/-! ## The program -/

structure Locals where
  staging : Option (List Text)
  backup : Option (List Text)
  deriving DecidableEq

inductive BuildError where
  | os_error
  | registry (error : RegistryError)

structure Setting where
  lib : Library
  int_max_str_digits : Nat
  world : World Text ByteArray BuildError
  /-- The end of a new name for `mkdtemp` -/
  random : Journal Text → Text

abbrev Step (γ : Type) := Program Text ByteArray BuildError Locals γ

section

variable (setting : Setting)

def evaluate {γ : Type} (x : Checked γ) : Step γ := compute setting.world (x.mapError .registry)

/-- `tempfile.mkdtemp` -/
def mkdtemp (label : Text) (dir : List Text) : Step (List Text) := do
  let journal ← Act.journal
  mkdir setting.world (dir ++ [label ++ setting.random journal])
  pure (dir ++ [label ++ setting.random journal])

/-- `Path.write_text`: the file is open when the text is encoded. -/
def writeText (path : List Text) (content : Text) : Step Unit :=
  match Text.encode content with
  | some bytes => write setting.world path bytes
  | none => do
      write setting.world path ByteArray.empty
      evaluate setting (.error .value_error)

/-- `canonical_json(build_index(modules))` -/
def indexContent (modules : List Module) : Checked Text :=
  if modules.any fun m => m.versions.any fun r =>
      !withinLimit setting.int_max_str_digits r.version then
    .error .value_error
  else do
    let index ← build_index setting.lib modules
    .ok (Json.canonical_json (.obj index.toDict))

def moduleContent (module : Module) : Checked Text := do
  let canonical ← canonical_module module
  .ok (Json.canonical_json (.obj canonical.toDict))

def modulePath (staging : List Text) (module_id : Text) : List Text :=
  staging ++ [text "modules", module_id ++ text ".json"]

def generateModule (staging : List Text) (module : Module) : Step Unit := do
  let content ← evaluate setting (moduleContent module)
  writeText setting (modulePath staging module.id) content

def generate (staging : List Text) (modules : List Module) : Step Unit := do
  mkdir setting.world (staging ++ [text "modules"])
  let content ← evaluate setting (indexContent setting modules)
  writeText setting (staging ++ [text "index.json"]) content
  modules.forM (generateModule setting staging)

variable (target : Target)

def label : Text := text "." ++ target.last.written ++ text "."

/-- The old tree is moved out of the way. -/
def setAside (staging : List Text) : Step Unit := do
  let backup ← mkdtemp setting (label target ++ text "previous.") target.parent
  Act.assign ⟨some staging, some backup⟩
  rmdir setting.world backup
  replace setting.world target.resolved_output backup

def removeBackup : Option (List Text) → Step Unit
  | none => pure ()
  | some backup => do
      let kept ← stat setting.world backup
      if kept then rmtree setting.world backup else pure ()

/-- `if output.exists()` -/
def makeRoom (staging : List Text) : Step Unit := do
  let present ← stat setting.world target.resolved_output
  if present then setAside setting target staging else pure ()

def swap (staging : List Text) : Step Unit := do
  makeRoom setting target staging
  replace setting.world staging target.resolved_output
  let locals ← Act.locals
  removeBackup setting locals.backup

/-- `if backup is not None and not output.exists() and backup.exists()` -/
def putBack : Option (List Text) → Step Unit
  | none => pure ()
  | some backup => do
      let present ← stat setting.world target.resolved_output
      if present then pure ()
      else do
        let kept ← stat setting.world backup
        if kept then replace setting.world backup target.resolved_output else pure ()

def restore (error : BuildError) : Step Unit := do
  let locals ← Act.locals
  putBack setting target locals.backup
  Act.raise error

def cleanup (staging : List Text) : Step Unit := do
  let left ← stat setting.world staging
  if left then rmtree setting.world staging else pure ()

def attempt (staging : List Text) (modules : List Module) : Step Unit := do
  generate setting staging modules
  swap setting target staging

def replaceStaged (modules : List Module) : Step Unit := do
  let staging ← mkdtemp setting (label target) target.parent
  Act.assign ⟨some staging, none⟩
  ((attempt setting target staging modules).handle (restore setting target)).andFinally
    (cleanup setting staging)

def replaceOutput (modules : List Module) : Step Unit := do
  target.parents.forM (ensureDirectory setting.world)
  replaceStaged setting target modules

def build (root : RegistryRoot) : Step Unit := do
  let modules ← evaluate setting (load_registry setting.lib root)
  if target.refused then
    Act.raise (.registry (.validation (text "refusing unsafe output directory: " ++ target.output)))
  else replaceOutput setting target modules

end

/-! ## What is deployed -/

/-- The files of a deployment as a tree -/
def deployed (files : Deployment) : List Text → Option (Node ByteArray)
  | [] => some .directory
  | [entry] =>
      if entry = text "modules" then some .directory
      else if entry = text "index.json" then (files[text "index.json"]?).map .file
      else none
  | [directory, entry] =>
      if directory = text "modules" then (files[text "modules/" ++ entry]?).map .file else none
  | _ => none

theorem deployed_empty (rest : List Text) : deployed (Table.ofList []) rest =
    if rest = [text "modules"] then some .directory
    else Files.emptyDirectory rest := by
  rcases rest with - | ⟨entry, - | ⟨inner, - | ⟨further, others⟩⟩⟩
  · rfl
  · simp [deployed, Files.emptyDirectory]
  · simp [deployed, Files.emptyDirectory]
  · simp [deployed, Files.emptyDirectory]

theorem deployed_index (files : Deployment) (bytes : ByteArray) (rest : List Text) :
    deployed (files.insert (text "index.json") bytes) rest =
      if rest = [text "index.json"] then some (.file bytes) else deployed files rest := by
  have named : text "index.json" ≠ text "modules" := by decide
  rcases rest with - | ⟨entry, - | ⟨inner, - | ⟨further, others⟩⟩⟩
  · rfl
  · by_cases here : entry = text "index.json"
    · simp [deployed, here, named]
    · simp [deployed, here]
  · have other : text "index.json" ≠ text "modules/" ++ inner := by
      intro same
      exact absurd (congrArg List.head? same) (by simp +decide [text])
    simp [deployed, Table.get_insert, other]
  · simp [deployed]

theorem deployed_module (files : Deployment) (module_id : Text) (bytes : ByteArray)
    (rest : List Text) : deployed (files.insert (moduleFile module_id) bytes) rest =
      if rest = [text "modules", module_id ++ text ".json"] then some (.file bytes)
      else deployed files rest := by
  rcases rest with - | ⟨entry, - | ⟨inner, - | ⟨further, others⟩⟩⟩
  · rfl
  · simp [deployed, Table.get_insert, moduleFile_ne_index]
  · simp only [deployed, Table.get_insert, moduleFile, List.append_assoc,
      List.append_cancel_left_eq, List.cons.injEq, and_true]
    by_cases directory : entry = text "modules"
    · by_cases here : inner = module_id ++ text ".json"
      · simp [directory, here]
      · simp [directory, here, Ne.symm here]
    · simp [directory]
  · simp [deployed]

end PackageRegistry.Replacement
