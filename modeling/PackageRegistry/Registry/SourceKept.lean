import PackageRegistry.Registry.OutputInside

/-! # `build` and its source

Files under the registry root survive every run whose output does not contain the root. For an
output that does, the guard is silent unless the repository lies in the output as well.
-/

namespace PackageRegistry.Replacement

open FileTree Raising FileSteps Checks

/-- The output equals, contains or lies inside the registry root. -/
def Target.Related (target : Target) : Prop :=
  target.resolved_output <+: target.registry_root ∨ target.registry_root <+: target.resolved_output

/-- What is left of a run of `build` by its source. -/
def SourceSafe (setting : Setting) (target : Target) (root : RegistryRoot)
    (before : Files Text ByteArray) : Prop :=
  let run := build setting target root (started before)
  (target.Related → (∃ error, run.1 = .error error) ∧ run.2.state = before) ∧
    (¬target.Related → ∀ path content, target.registry_root <+: path →
      before.find path = some (.file content) → run.2.state.find path = some (.file content))

/-- In no world and from no tree does `build` touch its source. -/
def KeepsSource (lib : Library) (int_max_str_digits : Nat) (target : Target) (root : RegistryRoot) :
    Prop :=
  ∀ world random (before : Site target),
    SourceSafe ⟨lib, int_max_str_digits, world, random⟩ target root before.files

/-! ## A file outside of the output -/

/-- A file that is neither under the staging directory nor under the backup -/
structure Kept (path : List Text) (content : ByteArray) (m : Run) : Prop where
  file : m.state.find path = some (.file content)
  staging : ∀ staging, m.locals.staging = some staging → ¬staging <+: path
  backup : ∀ backup, m.locals.backup = some backup → ¬backup <+: path

section

variable {setting : Setting} {target : Target} {path : List Text} {content : ByteArray}
  {staging : List Text} {m : Run}

theorem Kept.after (kept : Kept path content m) {files : Files Text ByteArray}
    (file : files.find path = some (.file content)) (op : Op Text) (raised : Bool) :
    Kept path content (after m files op raised) :=
  ⟨file, kept.staging, kept.backup⟩

theorem Kept.free (kept : Kept path content m) {other : List Text}
    (free : ∀ rest, m.state.find (other ++ rest) = none) : ¬other <+: path := by
  rintro ⟨rest, same⟩
  have missing := free rest
  rw [same, kept.file] at missing
  cases missing

theorem Kept.put (kept : Kept path content m) {other : List Text} (outside : ¬other <+: path)
    (node : Node ByteArray) : (m.state.put other node).find path = some (.file content) := by
  rw [Files.find_put_of_ne, kept.file]
  rintro rfl
  exact outside List.prefix_rfl

theorem keeps_evaluate {γ : Type} (x : Checked γ) :
    Preserves (Kept path content) (evaluate setting x) := fun _ kept =>
  ensures_evaluate (fun _ => kept.after kept.file _ _) fun _ _ => kept.after kept.file _ _

theorem keeps_stat (other : List Text) : Preserves (Kept path content) (stat setting.world other) :=
  fun _ kept => ensures_stat (kept.after kept.file _ _) (kept.after kept.file _ _)

theorem keeps_mkdir (other : List Text) :
    Preserves (Kept path content) (mkdir setting.world other) :=
  fun _ kept => ensures_mkdir (kept.after kept.file _ _) fun free =>
    kept.after (kept.put (kept.free free) _) _ _

theorem keeps_ensureDirectory (other : List Text) :
    Preserves (Kept path content) (ensureDirectory setting.world other) :=
  fun _ kept => ensures_ensureDirectory (kept.after kept.file _ _)
    (fun _ => kept.after kept.file _ _) fun _ free => kept.after (kept.put (kept.free free) _) _ _

theorem keeps_write {other : List Text} (outside : ¬other <+: path) (bytes : ByteArray) :
    Preserves (Kept path content) (write setting.world other bytes) := fun _ kept =>
  ensures_write (kept.after kept.file _ _) (fun _ => kept.after (kept.put outside _) _ _)
    (kept.after (kept.put outside _) _ _)

theorem keeps_rmdir {other : List Text} (outside : ¬other <+: path) :
    Preserves (Kept path content) (rmdir setting.world other) := fun _ kept =>
  ensures_rmdir (kept.after kept.file _ _)
    (kept.after ((Files.find_clear_of_not outside).trans kept.file) _ _)

theorem keeps_replace {src dst : List Text} (notSrc : ¬src <+: path) (notDst : ¬dst <+: path) :
    Preserves (Kept path content) (replace setting.world src dst) := fun _ kept =>
  ensures_replace (kept.after kept.file _ _) fun _ =>
    kept.after ((Files.find_move_other notSrc notDst).trans kept.file) _ _

theorem keeps_rmtree {other : List Text} (outside : ¬other <+: path) :
    Preserves (Kept path content) (rmtree setting.world other) := fun m kept => by
  refine ensures_rmtree (fun removed => kept.after ?_ _ _) (kept.after kept.file _ _)
    (kept.after ((Files.find_clear_of_not outside).trans kept.file) _ _)
  rw [Files.find_without, if_neg, kept.file]
  rw [Bool.and_eq_true, Files.isPrefixOf_iff]
  exact fun both => outside both.1

/-! ## The program -/

theorem keeps_removeIf {other : List Text} (outside : ¬other <+: path) (present : Bool) :
    Preserves (Kept path content)
      (if present then rmtree setting.world other else pure () : Step Unit) := by
  split
  · exact keeps_rmtree outside
  · exact Preserves.pure ()

theorem below_outside {other : List Text} (outside : ¬other <+: path) (inner : List Text) :
    ¬other ++ inner <+: path := fun below => outside ((List.prefix_append other inner).trans below)

theorem keeps_writeText {other : List Text} (outside : ¬other <+: path) (text : Text) :
    Preserves (Kept path content) (writeText setting other text) := by
  unfold writeText
  split
  · exact keeps_write outside _
  · exact Preserves.bind (keeps_write outside _) fun _ => keeps_evaluate _

theorem keeps_generate (outside : ¬staging <+: path) (modules : List Module) :
    Preserves (Kept path content) (generate setting staging modules) := by
  refine Preserves.bind (keeps_mkdir _) fun _ => Preserves.bind (keeps_evaluate _) fun index =>
    Preserves.bind (keeps_writeText (below_outside outside _) index) fun _ => ?_
  refine Preserves.forM fun module _ => Preserves.bind (keeps_evaluate _) fun text => ?_
  exact keeps_writeText (below_outside outside _) text

variable (outside : ¬target.resolved_output <+: path)

include outside in
theorem keeps_setAside (notStaging : ¬staging <+: path) :
    Preserves (Kept path content) (setAside setting target staging) := by
  intro m kept
  refine Ensures.bind (ensures_mkdtemp (fun _ => kept.after kept.file _ _) fun ending free => ?_)
  have notBackup := kept.free free
  refine Ensures.bind (Ensures.assign (Preserves.bind (keeps_rmdir notBackup) (fun _ =>
    keeps_replace outside notBackup) _ ⟨kept.put notBackup _, ?_, ?_⟩))
  · rintro _ ⟨⟩
    exact notStaging
  · rintro _ ⟨⟩
    exact notBackup

include outside in
theorem keeps_swap (notStaging : ¬staging <+: path) :
    Preserves (Kept path content) (swap setting target staging) := by
  refine Preserves.bind (Preserves.bind (keeps_stat _) fun present => ?_) fun _ =>
    Preserves.bind (keeps_replace notStaging outside) fun _ => fun m kept => ?_
  · split
    · exact keeps_setAside outside notStaging
    · exact Preserves.pure ()
  · refine Ensures.bind (Ensures.locals ?_)
    cases named : m.locals.backup with
    | none => exact Ensures.pure kept
    | some backup =>
        refine Preserves.bind (keeps_stat _) (fun present => ?_) m kept
        exact keeps_removeIf (kept.backup _ named) present

include outside in
theorem keeps_restore (error : BuildError) :
    Preserves (Kept path content) (restore setting target error) := by
  intro m kept
  refine Ensures.bind (Ensures.locals ?_)
  refine Preserves.bind ?_ (fun _ => Preserves.raise error) m kept
  cases named : m.locals.backup with
  | none => exact Preserves.pure ()
  | some backup =>
      refine Preserves.bind (keeps_stat _) fun present => ?_
      split
      · exact Preserves.pure ()
      · refine Preserves.bind (keeps_stat _) fun there => ?_
        split
        · exact keeps_replace (kept.backup _ named) outside
        · exact Preserves.pure ()

include outside in
theorem keeps_replaceOutput (modules : List Module) :
    Preserves (Kept path content) (replaceOutput setting target modules) := by
  refine Preserves.bind (Preserves.forM fun other _ => keeps_ensureDirectory other) fun _ => ?_
  intro m kept
  refine Ensures.bind (ensures_mkdtemp (fun _ => kept.after kept.file _ _) fun ending free => ?_)
  have notStaging := kept.free free
  refine Ensures.bind (Ensures.assign ((Preserves.andFinally (Preserves.handle (Preserves.bind
    (keeps_generate notStaging modules) fun _ => keeps_swap outside notStaging)
      (keeps_restore outside)) (Preserves.bind (keeps_stat _) (keeps_removeIf notStaging))) _
        ⟨kept.put notStaging _, ?_, ?_⟩))
  · rintro _ ⟨⟩
    exact notStaging
  · rintro _ ⟨⟩

/-- `build` ends at its guards, or goes on to replace the output. -/
theorem build_cases (setting : Setting) (target : Target) (root : RegistryRoot)
    (before : Files Text ByteArray) :
    ((∃ error, (build setting target root (started before)).1 = .error error) ∧
        (build setting target root (started before)).2.state = before) ∨
      ∃ modules, load_registry setting.lib root = .ok modules ∧ target.refused = false ∧
        build setting target root (started before) =
          replaceOutput setting target modules (after (started before) before .compute false) := by
  have unfolded : build setting target root (started before) = Act.bind
      (evaluate setting (load_registry setting.lib root)) (fun modules =>
        if target.refused then
          Act.raise (.registry (.validation
            (text "refusing unsafe output directory: " ++ target.output)))
        else replaceOutput setting target modules) (started before) := rfl
  rw [unfolded, Act.bind, evaluate, compute, Act.step]
  cases setting.world.fault (started before).journal .compute with
  | some damage => exact .inl ⟨⟨_, rfl⟩, rfl⟩
  | none =>
      cases load_registry setting.lib root with
      | error e => exact .inl ⟨⟨_, rfl⟩, rfl⟩
      | ok modules =>
          cases refused : target.refused with
          | true =>
              refine .inl ⟨⟨.registry (.validation
                (text "refusing unsafe output directory: " ++ target.output)), ?_⟩, ?_⟩
              · simp [Except.mapError, Act.raise]
              · simp [Except.mapError, Act.raise, started]
          | false =>
              refine .inr ⟨modules, rfl, rfl, ?_⟩
              simp only [Except.mapError, Bool.false_eq_true, if_false]
              rfl

theorem Target.refused_of_inside (target : Target)
    (inside : target.registry_root <+: target.resolved_output) : target.refused = true := by
  simp [OutputPath.refused, inside]

/-- A run that goes on keeps every file of a registry root that does not lie in the output. -/
theorem kept_of_not_inside {modules : List Module} (safe : target.refused = false)
    (inside : ¬target.resolved_output <+: target.registry_root) {before : Files Text ByteArray}
    (below : target.registry_root <+: path) (file : before.find path = some (.file content)) :
    (replaceOutput setting target modules
      (after (started before) before .compute false)).2.state.find path = some (.file content) := by
  have outside : ¬target.resolved_output <+: path := by
    intro among
    rcases List.prefix_or_prefix_of_prefix among below with h | h
    · exact inside h
    · rw [target.refused_of_inside h] at safe
      cases safe
  have kept : Kept path content (after (started before) before .compute false) :=
    ⟨file, nofun, nofun⟩
  exact (Ensures.final (keeps_replaceOutput outside modules _ kept)).file

/-! ## An output that contains the registry root -/

/-- Whatever comes after the staging directory breaks. -/
def isLater (depth : Nat) : Op Text → Bool
  | .mkdir path => depth < path.length
  | .stat _ => true
  | _ => false

/-- The staging directory is made and stays. -/
theorem changed_of_inside {lib : Library} {digits : Nat} {root : RegistryRoot}
    {modules : List Module} (accepted : load_registry lib root = .ok modules)
    (safe : target.refused = false) :
    (build (breaking lib digits (isLater (target.parent.length + 1)) target.unused) target root
      (started (Files.chain target.start))).2.state ≠ Files.chain target.start := by
  refine ensures_begun (fun _ => rfl) rfl
    accepted safe (fun m => m.state ≠ Files.chain target.start) fun m walked => ?_
  have parent := walked.made _ target.parent_mem
  have new : m.state.isDirectory (target.parent ++ [label target ++ target.unused]) = false :=
    Target.new_name walked _ List.mem_concat_self (by simp)
  refine Ensures.bind (ensures_mkdtemp_done ?_ (walked.skeleton.isFree new) parent ?_)
  · simp [isLater]
  generalize short : target.parent ++ [label target ++ target.unused] = staging at *
  refine Ensures.bind (Ensures.assign (Ensures.andFinally (Ensures.handle (Ensures.bind
    (Ensures.bind (ensures_broken ⟨none, fun _ => false⟩ ?_ ?_))))))
  · refine if_pos ?_
    simp [isLater, ← short]
  refine Ensures.bind (Ensures.locals (Ensures.bind (Ensures.pure (Ensures.raise ?_))))
  refine Ensures.bind (ensures_stat_broken ⟨none, fun _ => false⟩ rfl ?_)
  intro same
  rw [after_state, after_state, after_state] at same
  have there : (m.state.put staging .directory).isDirectory staging = true :=
    Files.isDirectory_put.mpr (.inl rfl)
  rw [same] at there
  rw [(walked.only _).mpr (.inl there)] at new
  cases new

theorem sourceSafe_of_not_inside (site : Site target) {root : RegistryRoot}
    (apart : ¬((load_registry setting.lib root).isOk = true ∧ target.refused = false ∧
      target.resolved_output <+: target.registry_root)) :
    SourceSafe setting target root site.files := by
  rcases build_cases setting target root site.files with stopped | ⟨modules, accepted, safe, run⟩
  · refine ⟨fun _ => stopped, fun _ path content _ file => ?_⟩
    rw [stopped.2]
    exact file
  · have inside : ¬target.resolved_output <+: target.registry_root := by
      intro inside
      rw [accepted] at apart
      exact apart ⟨rfl, safe, inside⟩
    constructor
    · rintro (contains | within)
      · exact absurd contains inside
      · rw [target.refused_of_inside within] at safe
        cases safe
    · intro _ path content below file
      rw [run]
      exact kept_of_not_inside safe inside below file

end

/-- A registry outside of the repository, and an output that contains it -/
def aroundRegistry : Target where
  repository_root := [text "srv", text "packages"]
  registry_root := [text "data", text "registry"]
  output := text "/data"
  resolved_output := [text "data"]
  is_symlink := false
  start := []
  parts := []
  last := .name (text "data")
  resolves := fun _ => rfl

def aroundSite : Site aroundRegistry where
  files := ⟨[([], .directory), ([text "data"], .directory),
    ([text "data", text "registry"], .directory),
    ([text "data", text "registry", text "registry.json"], .file ByteArray.empty)]⟩
  begins := by
    intro path inside
    rw [List.prefix_nil.mp inside]
    rfl

def aroundSetting : Setting := breaking plainLibrary 0 (fun _ => false) (text "x")

end PackageRegistry.Replacement
