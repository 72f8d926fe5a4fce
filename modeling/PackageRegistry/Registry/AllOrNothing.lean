import PackageRegistry.Registry.Replacement

/-! # `build` is all or nothing

Up to one step of `build` raises. Where the parent of the output lies beside the output, the
output then holds the old tree or the new one.
-/

namespace PackageRegistry.Replacement

open FileTree Raising FileSteps Checks

abbrev Run := Computer Text ByteArray Locals

def started (files : Files Text ByteArray) : Run := ⟨files, [], ⟨none, none⟩⟩

/-- A tree in which the way to the output begins at a directory. -/
structure Site (target : Target) where
  files : Files Text ByteArray
  begins : ∀ path, path <+: target.start → files.isDirectory path = true

def Old (target : Target) (before : Files Text ByteArray) (m : Run) : Prop :=
  m.state.Holds target.resolved_output (before.under target.resolved_output)

def New (setting : Setting) (target : Target) (root : RegistryRoot) (m : Run) : Prop :=
  ∃ files, PackageRegistry.build setting.lib setting.int_max_str_digits target.toOutputPath root =
    .ok files ∧ m.state.Holds target.resolved_output (deployed files)

/-- The staging directory is gone unless its removal has raised. -/
def StagingGone (m : Run) : Prop :=
  ∀ staging, m.locals.staging = some staging → m.state.find staging = none ∨
    (.stat staging, true) ∈ m.journal ∨ (.rmtree staging, true) ∈ m.journal

/-- What is left of a run in which at most one step has raised. -/
def Whole (setting : Setting) (target : Target) (root : RegistryRoot)
    (before : Files Text ByteArray) (m : Run) : Prop :=
  m.raises ≤ 1 → (Old target before m ∨ New setting target root m) ∧ StagingGone m

/-- A step on what is thrown away once the new tree is in place -/
def isRemoval (target : Target) : Op Text → Bool
  | .stat path => path ≠ target.resolved_output
  | .rmtree _ => true
  | _ => false

/-- A step has raised that comes before the new tree is in place. -/
def Early (target : Target) (m : Run) : Prop :=
  ∃ op, (op, true) ∈ m.journal ∧ isRemoval target op = false

/-- Which of the two trees is left -/
def Exact (setting : Setting) (target : Target) (root : RegistryRoot)
    (before : Files Text ByteArray) (m : Run) : Prop :=
  (Early target m ∧ Old target before m) ∨ (¬Early target m ∧ New setting target root m)

def AllOrNothing (target : Target) : Prop :=
  ∀ (setting : Setting) (root : RegistryRoot) (before : Site target),
    Whole setting target root before.files (build setting target root (started before.files)).2

/-- Neither the parent nor anything that has to be made on the way to it lies in the output. -/
def Target.Beside (target : Target) : Prop :=
  ¬target.resolved_output <+: target.parent ∧
    ∀ path ∈ target.parents, target.resolved_output <+: path → path <+: target.start

instance (target : Target) : Decidable target.Beside :=
  inferInstanceAs (Decidable (_ ∧ ∀ _ ∈ _, _))

/-! ## The names beside the output -/

theorem Target.Beside.output {target : Target} (beside : target.Beside)
    (plain : target.is_symlink = false) :
    ∃ entry, target.last = .name entry ∧ target.resolved_output = target.parent ++ [entry] := by
  have resolves := target.resolves plain
  cases last : target.last with
  | name entry =>
      rw [last] at resolves
      exact ⟨entry, rfl, resolves⟩
  | up =>
      rw [last] at resolves
      refine absurd ?_ beside.1
      rw [resolves]
      exact List.dropLast_prefix _
  | here =>
      rw [last] at resolves
      refine absurd ?_ beside.1
      rw [resolves]
      exact List.prefix_rfl

theorem Target.Beside.apart {target : Target} (beside : target.Beside)
    (plain : target.is_symlink = false) (suffix : Text) :
    Files.Apart (target.parent ++ [label target ++ suffix]) target.resolved_output := by
  obtain ⟨entry, last, resolved⟩ := beside.output plain
  rw [resolved]
  apply Files.apart_siblings
  intro same
  have lengths := congrArg List.length same
  simp [label, last, Last.written, text] at lengths
  omega

section

variable {setting : Setting} {target : Target} {root : RegistryRoot}
  {before : Files Text ByteArray} {staging : List Text} {m : Run}

/-! ## Which step has raised -/

theorem Early.after (early : Early target m) (files : Files Text ByteArray) (op : Op Text)
    (raised : Bool) : Early target (after m files op raised) := by
  obtain ⟨broken, mem, here⟩ := early
  exact ⟨broken, List.mem_append_left _ mem, here⟩

theorem early_after {op : Op Text} (here : isRemoval target op = false)
    (files : Files Text ByteArray) : Early target (after m files op true) :=
  ⟨op, List.mem_concat_self, here⟩

theorem not_early_after (late : ¬Early target m) {op : Op Text} {raised : Bool}
    (here : raised = true → isRemoval target op = true) (files : Files Text ByteArray) :
    ¬Early target (after m files op raised) := by
  rintro ⟨broken, mem, early⟩
  rcases List.mem_append.mp mem with old | new
  · exact late ⟨broken, old, early⟩
  · cases List.mem_singleton.mp new
    rw [here rfl] at early
    cases early

theorem not_early_done (late : ¬Early target m) (files : Files Text ByteArray) (op : Op Text) :
    ¬Early target (after m files op false) :=
  not_early_after late (fun raised => absurd raised Bool.false_ne_true) files

theorem not_early_of_calm (calm : m.raises = 0) : ¬Early target m := by
  rintro ⟨broken, mem, -⟩
  exact List.countP_eq_zero.mp calm _ mem rfl

/-! ## While the new tree is generated -/

/-- Nothing has raised, and the output is as it was. -/
structure Quiet (target : Target) (before : Files Text ByteArray) (staging : List Text) (m : Run) :
    Prop where
  calm : m.raises = 0
  old : Old target before m
  locals : m.locals = ⟨some staging, none⟩

/-- The old tree is under the name of the backup. -/
structure Aside (target : Target) (before : Files Text ByteArray) (backup : List Text) (m : Run) :
    Prop where
  named : m.locals.backup = some backup
  apart : Files.Apart backup target.resolved_output
  kept : m.state.Holds backup (before.under target.resolved_output)
  empty : m.state.Holds target.resolved_output Files.nothing
  there : before.find target.resolved_output ≠ none

/-- Where the handler finds the two trees -/
def Recoverable (setting : Setting) (target : Target) (root : RegistryRoot)
    (before : Files Text ByteArray) (m : Run) : Prop :=
  (Early target m ∧ Old target before m ∧
      (m.locals.backup ≠ none → before.find target.resolved_output ≠ none)) ∨
    (¬Early target m ∧ New setting target root m) ∨
    Early target m ∧ ∃ backup, Aside target before backup m

structure Broken (setting : Setting) (target : Target) (root : RegistryRoot)
    (before : Files Text ByteArray) (staging : List Text) (m : Run) : Prop where
  failed : 1 ≤ m.raises
  staged : m.locals.staging = some staging
  trees : m.raises ≤ 1 → Recoverable setting target root before m

theorem one_le_raises (m : Run) (files : Files Text ByteArray) (op : Op Text) :
    1 ≤ (after m files op true).raises := by
  rw [after_raises]
  exact Nat.le_add_left _ _

theorem Quiet.broken (quiet : Quiet target before staging m) {files : Files Text ByteArray}
    (old : files.Holds target.resolved_output (before.under target.resolved_output)) {op : Op Text}
    (early : isRemoval target op = false) :
    Broken setting target root before staging (after m files op true) := by
  refine ⟨one_le_raises m files op, ?_, fun _ => ?_⟩
  · rw [after_locals, quiet.locals]
  · refine .inl ⟨early_after early files, old, ?_⟩
    rw [after_locals, quiet.locals]
    intro named
    exact absurd rfl named

theorem Quiet.after (quiet : Quiet target before staging m) {files : Files Text ByteArray}
    (old : files.Holds target.resolved_output (before.under target.resolved_output))
    (op : Op Text) : Quiet target before staging (after m files op false) where
  calm := by rw [after_raises, quiet.calm]; rfl
  old := old
  locals := quiet.locals

variable {tree : List Text → Option (Node ByteArray)} {inner : List Text}

/-- A step on a path in the staging directory leaves the output as it was. -/
theorem Quiet.put (quiet : Quiet target before staging m)
    (apart : Files.Apart staging target.resolved_output) (inner : List Text)
    (node : Node ByteArray) :
    (m.state.put (staging ++ inner) node).Holds target.resolved_output
      (before.under target.resolved_output) :=
  quiet.old.put_other (apart.symm.not_below inner) node

theorem ensures_evaluate {γ : Type} {x : Checked γ} {done : γ → Run → Prop}
    {raised : BuildError → Run → Prop}
    (raising : ∀ e, raised e (after m m.state .compute true))
    (working : ∀ y, x = .ok y → done y (after m m.state .compute false)) :
    Ensures (evaluate setting x) m done raised := by
  refine ensures_compute raising fun y evaluated => working y ?_
  cases x with
  | error e => cases evaluated
  | ok x =>
      cases evaluated
      rfl

theorem ensures_mkdtemp {name : Text} {dir : List Text} {done : List Text → Run → Prop}
    {raised : BuildError → Run → Prop}
    (raising : ∀ path, raised setting.world.error (after m m.state (.mkdir path) true))
    (working : ∀ ending, (∀ rest, m.state.find (dir ++ [name ++ ending] ++ rest) = none) →
      done (dir ++ [name ++ ending])
        (after m (m.state.put (dir ++ [name ++ ending]) .directory)
          (.mkdir (dir ++ [name ++ ending])) false)) :
    Ensures (mkdtemp setting name dir) m done raised :=
  Ensures.bind (Ensures.journal (Ensures.bind (ensures_mkdir (raising _) fun free =>
    Ensures.pure (working _ free))))

theorem ensures_writeText {content : Text} (quiet : Quiet target before staging m)
    (apart : Files.Apart staging target.resolved_output) (holds : m.state.Holds staging tree) :
    Ensures (writeText setting (staging ++ inner) content) m
      (fun _ m => Quiet target before staging m ∧ ∃ bytes, write_text content = .ok bytes ∧
        m.state.Holds staging fun rest => if rest = inner then some (.file bytes) else tree rest)
      fun _ m => Broken setting target root before staging m := by
  unfold writeText
  split
  · rename_i bytes encoded
    refine ensures_write (quiet.broken quiet.old rfl) (fun part => ?_) ⟨?_, bytes, ?_, ?_⟩
    · exact quiet.broken (quiet.put apart inner _) rfl
    · exact quiet.after (quiet.put apart inner _) _
    · rw [write_text, encoded]
    · exact holds.put inner _
  · have opened := quiet.put apart inner (.file ByteArray.empty)
    refine Ensures.bind (ensures_write (quiet.broken quiet.old rfl) (fun part => ?_) ?_)
    · exact quiet.broken (quiet.put apart inner _) rfl
    · refine ensures_evaluate (fun _ => ?_) (fun _ evaluated => by cases evaluated)
      exact (quiet.after opened _).broken opened rfl

/-- The files of the modules, after those that are staged already. -/
theorem ensures_modules {modules : List Module} {files : List (Text × ByteArray)}
    (apart : Files.Apart staging target.resolved_output) (quiet : Quiet target before staging m)
    (holds : m.state.Holds staging (deployed (Table.ofList files))) :
    Ensures (modules.forM (generateModule setting staging)) m
      (fun _ m => Quiet target before staging m ∧ ∃ written,
        modules.mapM writeModule = .ok written ∧ m.state.Holds staging (deployed (Table.ofList (files ++ written))))
      fun _ m => Broken setting target root before staging m := by
  induction modules generalizing m files with
  | nil =>
      refine ⟨quiet, [], rfl, ?_⟩
      rwa [List.append_nil]
  | cons module rest ih =>
      refine Ensures.bind (Ensures.bind (ensures_evaluate (fun _ => quiet.broken quiet.old rfl) ?_))
      intro content rendered
      have before' := quiet.after quiet.old .compute
      refine (ensures_writeText before' apart holds).mono (fun _ m' wrote => ?_)
        fun _ _ failed => failed
      obtain ⟨quiet', bytes, encoded, staged⟩ := wrote
      have file : writeModule module = .ok (moduleFile module.id, bytes) := by
        obtain ⟨canonical, ordered, same⟩ := bind_ok.mp rendered
        cases same
        simp only [writeModule, ordered, ok_bind, encoded]
      have holds' : m'.state.Holds staging
          (deployed (Table.ofList (files ++ [(moduleFile module.id, bytes)]))) := by
        intro path
        rw [Table.ofList_concat, deployed_module]
        exact staged path
      refine (ih quiet' holds').mono (fun _ m'' later => ?_) fun _ _ failed => failed
      obtain ⟨quiet'', written, others, whole⟩ := later
      refine ⟨quiet'', (moduleFile module.id, bytes) :: written, ?_, ?_⟩
      · rw [List.mapM_cons, file, ok_bind, others]
        rfl
      · rwa [List.append_assoc] at whole

theorem ensures_generate {modules : List Module}
    (accepted : load_registry setting.lib root = .ok modules) (safe : target.refused = false)
    (apart : Files.Apart staging target.resolved_output) (quiet : Quiet target before staging m)
    (holds : m.state.Holds staging Files.emptyDirectory) :
    Ensures (generate setting staging modules) m
      (fun _ m => Quiet target before staging m ∧ ∃ files,
        PackageRegistry.build setting.lib setting.int_max_str_digits target.toOutputPath root =
          .ok files ∧ m.state.Holds staging (deployed files))
      fun _ m => Broken setting target root before staging m := by
  unfold generate
  refine Ensures.bind (ensures_mkdir (quiet.broken quiet.old rfl) fun _ => ?_)
  have quiet := quiet.after (quiet.put apart [text "modules"] .directory)
    (.mkdir (staging ++ [text "modules"]))
  refine Ensures.bind (ensures_evaluate (fun _ => quiet.broken quiet.old rfl)
    fun content rendered => ?_)
  have quiet := quiet.after quiet.old .compute
  have holds := holds.put [text "modules"] .directory
  refine Ensures.bind ((ensures_writeText quiet apart holds).mono (fun _ m' wrote => ?_)
    fun _ _ failed => failed)
  obtain ⟨quiet', index_json, encoded, staged⟩ := wrote
  have holds' : m'.state.Holds staging
      (deployed (Table.ofList [(text "index.json", index_json)])) := by
    intro path
    rw [← List.nil_append [(text "index.json", index_json)], Table.ofList_concat, deployed_index]
    rw [staged path, deployed_empty]
  refine (ensures_modules apart quiet' holds').mono (fun _ m'' later => ?_) fun _ _ failed => failed
  obtain ⟨quiet'', written, others, whole⟩ := later
  refine ⟨quiet'', _, ?_, whole⟩
  unfold indexContent at rendered
  split at rendered
  · cases rendered
  · rename_i limited
    obtain ⟨index, built, same⟩ := bind_ok.mp rendered
    cases same
    simp only [PackageRegistry.build, accepted, ok_bind, safe, Bool.false_eq_true, if_false,
      limited, built, encoded, others, List.singleton_append]

/-! ## The swap -/

/-- The new tree is staged, and the output is free or held what is there now. -/
structure Ready (setting : Setting) (target : Target) (root : RegistryRoot)
    (before : Files Text ByteArray) (staging : List Text) (m : Run) : Prop where
  calm : m.raises = 0
  staged : m.locals.staging = some staging
  apart : Files.Apart staging target.resolved_output
  holds : ∃ files,
    PackageRegistry.build setting.lib setting.int_max_str_digits target.toOutputPath root =
      .ok files ∧ m.state.Holds staging (deployed files)
  old : (m.locals.backup = none ∧ Old target before m) ∨ ∃ backup, Aside target before backup m

theorem Aside.after {backup : List Text} (aside : Aside target before backup m) (op : Op Text)
    (raised : Bool) : Aside target before backup (after m m.state op raised) :=
  ⟨aside.named, aside.apart, aside.kept, aside.empty, aside.there⟩

theorem Ready.broken (ready : Ready setting target root before staging m) {op : Op Text}
    (early : isRemoval target op = false) :
    Broken setting target root before staging (after m m.state op true) := by
  refine ⟨one_le_raises _ _ _, ready.staged, fun _ => ?_⟩
  rcases ready.old with ⟨none, old⟩ | ⟨backup, aside⟩
  · exact .inl ⟨early_after early _, old, fun some_ => absurd none some_⟩
  · exact .inr (.inr ⟨early_after early _, backup, aside.after op true⟩)

theorem ensures_setAside (apart : Files.Apart staging target.resolved_output)
    (quiet : Quiet target before staging m) (there : before.find target.resolved_output ≠ none)
    {files : Deployment}
    (built : PackageRegistry.build setting.lib setting.int_max_str_digits target.toOutputPath root =
      .ok files)
    (holds : m.state.Holds staging (deployed files)) (beside : target.Beside)
    (plain : target.is_symlink = false) {name : Text}
    (sibling : staging = target.parent ++ [name]) :
    Ensures (setAside setting target staging) m
      (fun _ m => Ready setting target root before staging m)
      fun _ m => Broken setting target root before staging m := by
  unfold setAside
  refine Ensures.bind (ensures_mkdtemp (fun _ => quiet.broken quiet.old rfl) fun ending free => ?_)
  have aside := beside.apart plain (text "previous." ++ ending)
  rw [← List.append_assoc] at aside
  have other : Files.Apart (target.parent ++ [label target ++ text "previous." ++ ending])
      staging := by
    rw [sibling]
    apply Files.apart_siblings
    intro same
    have missing := free []
    rw [same, ← sibling, List.append_nil, holds.here] at missing
    cases missing
  generalize target.parent ++ [label target ++ text "previous." ++ ending] = backup at *
  have old := quiet.old.put_other aside.2 .directory
  have staged := holds.put_other other.2 .directory
  refine Ensures.bind (Ensures.assign (Ensures.bind ?_))
  -- from here on the old tree is there for the handler
  have known : ∀ (files : Files Text ByteArray) (op : Op Text) (journal : Journal Text),
      isRemoval target op = false →
        files.Holds target.resolved_output (before.under target.resolved_output) →
          Broken setting target root before staging
            (after ⟨files, journal, some staging, some backup⟩ files op true) := by
    intro files op journal early old
    exact ⟨one_le_raises _ _ _, rfl, fun _ => .inl ⟨early_after early _, old, fun _ => there⟩⟩
  refine ensures_rmdir (known _ _ _ rfl old) ?_
  have old := old.clear_other aside
  have staged := staged.clear_other other
  refine ensures_replace (known _ _ _ rfl old) fun apart' => ?_
  constructor
  · have calm := quiet.calm
    rw [Machine.raises] at calm
    simp [Machine.raises, calm]
  · rfl
  · exact apart
  · exact ⟨files, built, staged.move_other apart.symm other⟩
  · exact .inr ⟨backup, rfl, aside, old.move apart', Files.holds_moved _ apart', there⟩

/-- The new tree is in its place. -/
theorem ensures_removeBackup {backup : Option (List Text)} (new : New setting target root m)
    (calm : ¬Early target m) (staged : m.locals.staging = some staging)
    (apart : ∀ path, backup = some path → Files.Apart path target.resolved_output) :
    Ensures (removeBackup setting backup) m
      (fun _ m => (¬Early target m ∧ New setting target root m) ∧ m.locals.staging = some staging)
      fun _ m => Broken setting target root before staging m := by
  obtain ⟨files, built, holds⟩ := new
  have broken : ∀ (state : Files Text ByteArray) (op : Op Text) (m : Run), ¬Early target m →
      isRemoval target op = true → state.Holds target.resolved_output (deployed files) →
        m.locals.staging = some staging →
          Broken setting target root before staging (after m state op true) := by
    intro state op m calm late holds staged
    exact ⟨one_le_raises _ _ _, staged, fun _ =>
      .inr (.inl ⟨not_early_after calm (fun _ => late) _, files, built, holds⟩)⟩
  cases backup with
  | none => exact ⟨⟨calm, files, built, holds⟩, staged⟩
  | some path =>
      have apart := apart path rfl
      have late : isRemoval target (.stat path) = true := by
        rw [isRemoval, decide_eq_true_eq]
        rintro rfl
        exact apart.1 List.prefix_rfl
      have calm' := not_early_done calm m.state (.stat path)
      refine Ensures.bind (ensures_stat (broken _ _ m calm late holds staged) ?_)
      split
      · refine ensures_rmtree (fun removed => ?_) ?_ ⟨⟨not_early_done calm' _ _, files, built, ?_⟩,
          staged⟩
        · exact broken _ _ _ calm' rfl (holds.without_other apart removed) staged
        · exact broken _ _ _ calm' rfl holds staged
        · exact holds.clear_other apart
      · exact ⟨⟨calm', files, built, holds⟩, staged⟩

theorem ensures_makeRoom (apart : Files.Apart staging target.resolved_output)
    (quiet : Quiet target before staging m) {files : Deployment}
    (built : PackageRegistry.build setting.lib setting.int_max_str_digits target.toOutputPath root =
      .ok files)
    (holds : m.state.Holds staging (deployed files)) (beside : target.Beside)
    (plain : target.is_symlink = false) {name : Text}
    (sibling : staging = target.parent ++ [name]) :
    Ensures (makeRoom setting target staging) m
      (fun _ m => Ready setting target root before staging m)
      fun _ m => Broken setting target root before staging m := by
  unfold makeRoom
  refine Ensures.bind (ensures_stat (quiet.broken quiet.old (by simp [isRemoval])) ?_)
  have quiet' := quiet.after quiet.old (.stat target.resolved_output)
  split
  · rename_i present
    refine ensures_setAside apart quiet' ?_ built holds beside plain sibling
    rw [quiet.old.here, Files.under, List.append_nil] at present
    exact Option.isSome_iff_ne_none.mp present
  · refine Ensures.pure ⟨quiet'.calm, ?_, apart, ⟨files, built, holds⟩, .inl ⟨?_, quiet'.old⟩⟩
    · rw [quiet'.locals]
    · rw [quiet'.locals]

theorem ensures_swap (apart : Files.Apart staging target.resolved_output)
    (quiet : Quiet target before staging m) {files : Deployment}
    (built : PackageRegistry.build setting.lib setting.int_max_str_digits target.toOutputPath root =
      .ok files)
    (holds : m.state.Holds staging (deployed files)) (beside : target.Beside)
    (plain : target.is_symlink = false) {name : Text}
    (sibling : staging = target.parent ++ [name]) :
    Ensures (swap setting target staging) m
      (fun _ m => (¬Early target m ∧ New setting target root m) ∧ m.locals.staging = some staging)
      fun _ m => Broken setting target root before staging m := by
  refine Ensures.bind ((ensures_makeRoom apart quiet built holds beside plain sibling).mono
    (fun _ m ready => ?_) fun _ _ failed => failed)
  refine Ensures.bind (ensures_replace (ready.broken rfl) fun apart => ?_)
  obtain ⟨files, built, holds⟩ := ready.holds
  refine Ensures.bind (Ensures.locals (ensures_removeBackup ?_ ?_ ready.staged
    fun path named => ?_))
  · exact ⟨files, built, holds.move apart⟩
  · exact not_early_done (not_early_of_calm ready.calm) _ _
  · rcases ready.old with ⟨none, -⟩ | ⟨backup, aside⟩
    · rw [after_locals, none] at named
      cases named
    · rw [after_locals, aside.named] at named
      cases named
      exact aside.apart

/-! ## After a step has raised -/

/-- The output holds the old tree or the new one. -/
def Settled (setting : Setting) (target : Target) (root : RegistryRoot)
    (before : Files Text ByteArray) (staging : List Text) (m : Run) : Prop :=
  m.locals.staging = some staging ∧
    (m.raises ≤ 1 → Exact setting target root before m)

theorem Settled.twice (failed : 1 ≤ m.raises) (staged : m.locals.staging = some staging)
    (files : Files Text ByteArray) (op : Op Text) :
    Settled setting target root before staging (after m files op true) := by
  refine ⟨staged, fun once => ?_⟩
  rw [after_raises, if_pos rfl] at once
  omega

theorem New.there (new : New setting target root m) :
    (m.state.find target.resolved_output).isSome = true := by
  obtain ⟨files, -, holds⟩ := new
  rw [holds.here]
  rfl

theorem Old.there (old : Old target before m) (there : before.find target.resolved_output ≠ none) :
    (m.state.find target.resolved_output).isSome = true := by
  rw [old.here, Files.under, List.append_nil]
  exact Option.isSome_iff_ne_none.mpr there

theorem Aside.missing {backup : List Text} (aside : Aside target before backup m) :
    (m.state.find target.resolved_output).isSome = false := by
  rw [aside.empty.here]
  rfl

theorem Broken.after (broken : Broken setting target root before staging m) (op : Op Text) :
    Broken setting target root before staging (after m m.state op false) := by
  have same : (FileSteps.after m m.state op false).raises = m.raises := by
    rw [after_raises]
    rfl
  refine ⟨by rw [same]; exact broken.failed, broken.staged, fun once => ?_⟩
  rw [same] at once
  rcases broken.trees once with ⟨early, old⟩ | ⟨late, new⟩ | ⟨early, backup, aside⟩
  · exact .inl ⟨early.after _ _ _, old⟩
  · exact .inr (.inl ⟨not_early_done late _ _, new⟩)
  · exact .inr (.inr ⟨early.after _ _ _, backup, aside.after op false⟩)

theorem ensures_putBack (broken : Broken setting target root before staging m) :
    Ensures (putBack setting target m.locals.backup) m
      (fun _ m => Settled setting target root before staging m)
      fun _ m => Settled setting target root before staging m := by
  have staged := broken.staged
  have failed := broken.failed
  cases named : m.locals.backup with
  | none =>
      refine Ensures.pure ⟨staged, fun once => ?_⟩
      rcases broken.trees once with ⟨early, old, -⟩ | new | ⟨-, path, aside⟩
      · exact .inl ⟨early, old⟩
      · exact .inr new
      · rw [aside.named] at named
        cases named
  | some backup =>
      refine Ensures.bind (ensures_stat (Settled.twice failed staged _ _) ?_)
      have broken := broken.after (.stat target.resolved_output)
      have failed := broken.failed
      split
      · rename_i present
        refine Ensures.pure ⟨staged, fun once => ?_⟩
        rcases broken.trees once with ⟨early, old, -⟩ | new | ⟨-, path, aside⟩
        · exact .inl ⟨early, old⟩
        · exact .inr new
        · exact absurd present (Bool.eq_false_iff.mp aside.missing)
      · rename_i missing
        -- only the tree that was set aside is left
        have aside : (after m m.state (.stat target.resolved_output) false).raises ≤ 1 →
            Early target (after m m.state (.stat target.resolved_output) false) ∧
              Aside target before backup
                (after m m.state (.stat target.resolved_output) false) := by
          intro once
          rcases broken.trees once with ⟨-, old, there⟩ | ⟨-, new⟩ | ⟨early, path, aside⟩
          · exact absurd (old.there (there (by simp [named]))) missing
          · exact absurd new.there missing
          · have same := aside.named
            rw [after_locals, named] at same
            cases same
            exact ⟨early, aside⟩
        refine Ensures.bind (ensures_stat (Settled.twice failed staged _ _) ?_)
        split
        · have failed := (broken.after (.stat backup)).failed
          refine ensures_replace (Settled.twice failed staged _ _) fun apart =>
            ⟨staged, fun once => ?_⟩
          simp only [after_raises] at once
          obtain ⟨early, aside⟩ := aside (by simpa using once)
          exact .inl ⟨(early.after _ _ _).after _ _ _, aside.kept.move apart⟩
        · rename_i gone
          refine Ensures.pure ⟨staged, fun once => ?_⟩
          simp only [after_raises] at once
          obtain ⟨-, aside⟩ := aside (by simpa using once)
          have kept := aside.kept.here
          rw [Files.under, List.append_nil] at kept
          refine absurd ?_ gone
          rw [kept]
          exact Option.isSome_iff_ne_none.mpr aside.there

theorem ensures_restore (broken : Broken setting target root before staging m) (error : BuildError)
    {done : Unit → Run → Prop} :
    Ensures (restore setting target error) m done
      fun _ m => Settled setting target root before staging m :=
  Ensures.bind (Ensures.locals (Ensures.bind ((ensures_putBack broken).mono
    (fun _ _ settled => Ensures.raise settled) fun _ _ settled => settled)))

theorem Settled.of_kept (settled : Settled setting target root before staging m)
    {files : Files Text ByteArray} {op : Op Text} {raised : Bool}
    (late : raised = true → isRemoval target op = true)
    (kept : ∀ tree, m.state.Holds target.resolved_output tree →
      files.Holds target.resolved_output tree) :
    (after m files op raised).raises ≤ 1 →
      Exact setting target root before (after m files op raised) := by
  intro once
  rw [after_raises] at once
  rcases settled.2 (Nat.le_of_add_right_le once) with ⟨early, old⟩ | ⟨calm, files, built, holds⟩
  · exact .inl ⟨early.after _ _ _, kept _ old⟩
  · exact .inr ⟨not_early_after calm late _, files, built, kept _ holds⟩

/-- One of the two trees is left, and nothing beside it. -/
def Swept (setting : Setting) (target : Target) (root : RegistryRoot)
    (before : Files Text ByteArray) (m : Run) : Prop :=
  m.raises ≤ 1 → Exact setting target root before m ∧ StagingGone m

theorem ensures_cleanup (settled : Settled setting target root before staging m)
    (apart : Files.Apart staging target.resolved_output) :
    Ensures (cleanup setting staging) m (fun _ m => Swept setting target root before m)
      fun _ m => Swept setting target root before m := by
  have staged := settled.1
  have only : ∀ {path}, m.locals.staging = some path → path = staging := by
    intro path named
    rw [staged] at named
    exact (Option.some.inj named).symm
  have late : isRemoval target (.stat staging) = true := by
    rw [isRemoval, decide_eq_true_eq]
    rintro rfl
    exact apart.1 List.prefix_rfl
  refine Ensures.bind (ensures_stat
    (fun once => ⟨settled.of_kept (fun _ => late) (fun _ holds => holds) once, ?_⟩) ?_)
  · rintro path named
    obtain rfl := only named
    exact .inr (.inl (by simp))
  have settled' : Settled setting target root before staging
      (after m m.state (.stat staging) false) :=
    ⟨staged, settled.of_kept (fun _ => late) fun _ holds => holds⟩
  split
  · refine ensures_rmtree (fun removed once => ⟨?_, fun path named => ?_⟩)
      (fun once => ⟨?_, fun path named => ?_⟩) fun once => ⟨?_, fun path named => ?_⟩
    · exact settled'.of_kept (fun _ => rfl) (fun _ holds => holds.without_other apart removed) once
    · obtain rfl := only named
      exact .inr (.inr (by simp))
    · exact settled'.of_kept (fun _ => rfl) (fun _ holds => holds) once
    · obtain rfl := only named
      exact .inr (.inr (by simp))
    · exact settled'.of_kept (fun _ => rfl) (fun _ holds => holds.clear_other apart) once
    · obtain rfl := only named
      exact .inl (Files.holds_clear _ _).here
  · rename_i gone
    refine Ensures.pure fun once => ⟨settled'.2 once, fun path named => ?_⟩
    obtain rfl := only named
    exact .inl (by simpa using gone)

/-! ## The whole of `build` -/

/-- Before the staging directory -/
structure Begun (target : Target) (before : Files Text ByteArray) (m : Run) : Prop where
  calm : m.raises = 0
  locals : m.locals = ⟨none, none⟩
  old : Old target before m
  begins : ∀ path, path <+: target.start → m.state.isDirectory path = true

theorem Begun.swept (begun : Begun target before m) {op : Op Text}
    (early : isRemoval target op = false) :
    Swept setting target root before (after m m.state op true) := by
  refine fun _ => ⟨.inl ⟨early_after early _, begun.old⟩, fun staging named => ?_⟩
  rw [after_locals, begun.locals] at named
  cases named

theorem ensures_parents (begun : Begun target before m) (beside : target.Beside) :
    Ensures (target.parents.forM (ensureDirectory setting.world)) m
      (fun _ m => Begun target before m) fun _ m => Swept setting target root before m := by
  refine Ensures.forM (fun path mem m begun => ?_) begun
  refine ensures_ensureDirectory (begun.swept rfl) (fun _ => ?_) fun missing _ => ?_
  · exact ⟨by rw [after_raises, begun.calm]; rfl, begun.locals, begun.old, begun.begins⟩
  · refine ⟨by rw [after_raises, begun.calm]; rfl, begun.locals, begun.old.put_other ?_ _, ?_⟩
    · intro inside
      rw [begun.begins path (beside.2 path mem inside)] at missing
      cases missing
    · intro other starts
      rw [after_state, Files.isDirectory_iff, Files.find_put]
      split
      · rfl
      · exact Files.isDirectory_iff.mp (begun.begins other starts)

theorem ensures_replaceStaged {modules : List Module}
    (accepted : load_registry setting.lib root = .ok modules) (safe : target.refused = false)
    (begun : Begun target before m) (beside : target.Beside) :
    Ensures (replaceStaged setting target modules) m
      (fun _ m => Swept setting target root before m)
      fun _ m => Swept setting target root before m := by
  have plain : target.is_symlink = false := by
    cases link : target.is_symlink with
    | false => rfl
    | true => simp [OutputPath.refused, link] at safe
  refine Ensures.bind (ensures_mkdtemp (fun _ => begun.swept rfl) fun ending free => ?_)
  have apart := beside.apart plain ending
  have holds := Files.Holds.mkdir free
  have old := begun.old.put_other apart.2 .directory
  have quiet : Quiet target before (target.parent ++ [label target ++ ending])
      ⟨m.state.put (target.parent ++ [label target ++ ending]) .directory,
        m.journal ++ [(.mkdir (target.parent ++ [label target ++ ending]), false)],
        some (target.parent ++ [label target ++ ending]), none⟩ := by
    refine ⟨?_, old, rfl⟩
    have calm := begun.calm
    rw [Machine.raises] at calm
    simp [calm]
  refine Ensures.bind (Ensures.assign (Ensures.andFinally (Ensures.handle (Ensures.bind
    (Ensures.mono (ensures_generate accepted safe apart quiet holds) (fun _ m generated => ?_)
      fun error _ broken => ?_)))))
  · obtain ⟨quiet, files, built, holds⟩ := generated
    refine (ensures_swap apart quiet built holds beside plain rfl).mono (fun _ m swapped => ?_)
      fun error _ broken => ?_
    · exact ensures_cleanup ⟨swapped.2, fun _ => .inr swapped.1⟩ apart
    · exact (ensures_restore broken error).mono (fun _ _ whole => whole) fun _ _ settled =>
        ensures_cleanup settled apart
  · exact (ensures_restore broken error).mono (fun _ _ whole => whole) fun _ _ settled =>
      ensures_cleanup settled apart

theorem Site.begun (site : Site target) : Begun target site.files (started site.files) :=
  ⟨rfl, rfl, fun _ => rfl, site.begins⟩

/-- Where the output lies beside its way, exactly one of the two trees is left. -/
theorem swept_of_beside (site : Site target) (safe : target.refused = false)
    (beside : target.Beside) :
    Swept setting target root site.files (build setting target root (started site.files)).2 := by
  have begun := site.begun
  refine Ensures.final (Ensures.bind (ensures_evaluate (fun _ => begun.swept rfl)
    fun modules accepted => ?_))
  rw [safe]
  have loaded : Begun target site.files (after (started site.files) site.files .compute false) :=
    ⟨rfl, rfl, begun.old, begun.begins⟩
  exact Ensures.bind ((ensures_parents loaded beside).mono
    (fun _ m begun => ensures_replaceStaged accepted safe begun beside) fun _ _ swept => swept)

theorem whole_of_refused (site : Site target) (refused : target.refused = true) :
    Whole setting target root site.files (build setting target root (started site.files)).2 := by
  have old : ∀ raised, Whole setting target root site.files
      (after (started site.files) site.files .compute raised) :=
    fun raised _ => ⟨.inl fun _ => rfl, nofun⟩
  refine Ensures.final (Ensures.bind (ensures_evaluate (fun _ => old true)
    fun modules accepted => ?_))
  rw [refused]
  exact Ensures.raise (old false)

theorem whole_of_beside (site : Site target) (safe : target.refused = true ∨ target.Beside) :
    Whole setting target root site.files (build setting target root (started site.files)).2 := by
  cases refused : target.refused with
  | true => exact whole_of_refused site refused
  | false =>
      rw [refused] at safe
      intro once
      obtain ⟨trees, gone⟩ := swept_of_beside site refused (safe.resolve_left nofun) once
      exact ⟨trees.imp And.right And.right, gone⟩

end

end PackageRegistry.Replacement
