import PackageRegistry.Registry.AllOrNothing

/-! # Outputs that lie about their own parent

Where the parent of the output, or a directory that is made on the way to it, lies in the
output, one step that raises leaves something there.
-/

namespace PackageRegistry.Replacement

open FileTree Raising FileSteps Checks

def emptyRoot : RegistryRoot := ⟨text "registry", some (text "\x7b\"schema_version\": 1\x7d"), ∅⟩

/-- Some calls break, without having done anything. -/
def breaking (lib : Library) (digits : Nat) (broken : Op Text → Bool) (suffix : Text) :
    Setting where
  lib := lib
  int_max_str_digits := digits
  world := ⟨fun _ op => if broken op then some ⟨none, fun _ => false⟩ else none, .os_error⟩
  random := fun _ => suffix

theorem emptyRoot_accepted : load_registry plainLibrary emptyRoot = .ok [] := by decide +kernel

section

variable {lib : Library} {digits : Nat} {broken : Op Text → Bool} {suffix : Text} {m : Run}

theorem fault_breaking {journal : Journal Text} {op : Op Text} (calm : broken op = false) :
    (breaking lib digits broken suffix).world.fault journal op = none := by
  exact if_neg (Bool.eq_false_iff.mp calm)

/-! ## The way to the parent -/

/-- The directories of a path have been made, and no others. -/
structure Walked (paths : List (List Text)) (m m' : Run) : Prop where
  skeleton : m'.state.Skeleton
  raises : m'.raises = m.raises
  locals : m'.locals = m.locals
  made : ∀ path ∈ paths, m'.state.isDirectory path = true
  only : ∀ path, m'.state.isDirectory path = true ↔ m.state.isDirectory path = true ∨ path ∈ paths

theorem Walked.cons {paths : List (List Text)} {path : List Text} {m m' m'' : Run}
    (first : Walked [path] m m') (later : Walked paths m' m'') : Walked (path :: paths) m m'' where
  skeleton := later.skeleton
  raises := later.raises.trans first.raises
  locals := later.locals.trans first.locals
  made := by
    intro other mem
    rcases List.mem_cons.mp mem with rfl | mem
    · exact (later.only _).mpr (.inl (first.made _ (List.mem_singleton.mpr rfl)))
    · exact later.made other mem
  only := by
    intro other
    rw [later.only, first.only, List.mem_singleton, List.mem_cons, or_assoc]

theorem ensures_made {path : List Text} (calm : broken (.ensureDirectory path) = false)
    (skeleton : m.state.Skeleton) (inside : m.state.isDirectory path.dropLast = true)
    {raised : BuildError → Run → Prop} :
    Ensures (ensureDirectory (breaking lib digits broken suffix).world path) m
      (fun _ m' => Walked [path] m m') raised := by
  by_cases there : m.state.isDirectory path = true
  · refine ensures_done m.state (fault_breaking calm) (if_pos there) ?_
    refine ⟨skeleton, by simp, rfl, ?_, fun other => ?_⟩
    · rintro other mem
      rwa [List.mem_singleton.mp mem]
    · rw [List.mem_singleton, after_state]
      exact ⟨.inl, fun h => h.elim id fun same => same ▸ there⟩
  · have missing := Bool.eq_false_iff.mpr there
    refine ensures_done (m.state.put path .directory) (fault_breaking calm) ?_ ?_
    · rw [if_neg there, Files.mkdir, skeleton.isFree missing, inside]
      rfl
    · refine ⟨skeleton.put path inside, by simp, rfl, ?_, fun other => ?_⟩
      · rintro other mem
        exact Files.isDirectory_put.mpr (.inl (List.mem_singleton.mp mem))
      · rw [after_state, Files.isDirectory_put, List.mem_singleton, or_comm]

theorem ensures_way (calm : ∀ path, broken (.ensureDirectory path) = false) {parts : List Part}
    {path : List Text} (skeleton : m.state.Skeleton)
    (inside : m.state.isDirectory path.dropLast = true) {raised : BuildError → Run → Prop} :
    Ensures ((parts.scanl Part.follow path).forM
        (ensureDirectory (breaking lib digits broken suffix).world)) m
      (fun _ m' => Walked (parts.scanl Part.follow path) m m') raised := by
  induction parts generalizing m path with
  | nil =>
      refine Ensures.bind ((ensures_made (calm path) skeleton inside).mono (fun _ m' walked => ?_)
        fun _ _ failed => failed)
      exact Ensures.pure walked
  | cons part rest ih =>
      rw [List.scanl_cons]
      refine Ensures.bind ((ensures_made (calm path) skeleton inside).mono (fun _ m' walked => ?_)
        fun _ _ failed => failed)
      have here := walked.made path (List.mem_singleton.mpr rfl)
      have next : m'.state.isDirectory (part.follow path).dropLast = true := by
        cases part with
        | name entry =>
            rw [Part.follow, List.dropLast_concat]
            exact here
        | up =>
            rw [Part.follow]
            exact walked.skeleton.closed path here _
              ((List.dropLast_prefix _).trans (List.dropLast_prefix _))
      exact (ih walked.skeleton next).mono (fun _ _ later => walked.cons later)
        fun _ _ failed => failed

/-! ## What is left -/

/-- There is a new directory in the output, and no file anywhere. -/
structure LeftOver (target : Target) (m : Run) : Prop where
  once : m.raises ≤ 1
  directory : ∃ path, target.resolved_output <+: path ∧ ¬path <+: target.start ∧
    m.state.isDirectory path = true
  no_file : ∀ path content, m.state.find path ≠ some (.file content)

theorem deployed_emptyRoot {place : OutputPath} {files : Deployment}
    (built : PackageRegistry.build plainLibrary 0 place emptyRoot = .ok files) :
    ∃ bytes, deployed files [text "index.json"] = some (.file bytes) := by
  simp only [PackageRegistry.build, emptyRoot_accepted, ok_bind, guard_ok error_ok, bind_ok,
    List.mapM_nil, Pure.pure, Except.pure] at built
  obtain ⟨-, -, index, -, bytes, -, same⟩ := built
  cases same
  refine ⟨bytes, ?_⟩
  rw [← List.nil_append [(text "index.json", bytes)], Table.ofList_concat, deployed_index,
    if_pos rfl]

theorem LeftOver.not_whole {target : Target} (left : LeftOver target m) :
    ¬Whole (breaking plainLibrary 0 broken suffix) target emptyRoot (Files.chain target.start)
      m := by
  intro whole
  obtain ⟨path, ⟨rest, rfl⟩, new, there⟩ := left.directory
  rcases (whole left.once).1 with old | ⟨files, built, holds⟩
  · have same := old rest
    rw [Files.under, Files.isDirectory_iff.mp there] at same
    exact new (Files.isDirectory_chain.mp (Files.isDirectory_iff.mpr same.symm))
  · obtain ⟨bytes, index⟩ := deployed_emptyRoot built
    exact left.no_file _ bytes ((holds [text "index.json"]).trans index)

theorem Walked.no_file {paths : List (List Text)} {m m' : Run} (walked : Walked paths m m')
    (path : List Text) (content : ByteArray) : m'.state.find path ≠ some (.file content) := by
  intro found
  cases walked.skeleton.eq_directory found

def isMkdir : Op Text → Bool
  | .mkdir _ => true
  | _ => false

/-- `build` up to where the staging directory is made -/
theorem ensures_begun (calm : ∀ path, broken (.ensureDirectory path) = false)
    (calm' : broken .compute = false) {root : RegistryRoot} {modules : List Module}
    (accepted : load_registry lib root = .ok modules) {target : Target}
    (safe : target.refused = false) (Q : Run → Prop)
    (later : ∀ m, Walked target.parents
        (after (started (Files.chain target.start)) (Files.chain target.start) .compute false) m →
      Ensures (replaceStaged (breaking lib digits broken suffix) target modules) m (fun _ m => Q m)
        fun _ m => Q m) :
    Q (build (breaking lib digits broken suffix) target root
      (started (Files.chain target.start))).2 := by
  have loaded : (load_registry lib root).mapError BuildError.registry = .ok modules := by
    rw [accepted]
    rfl
  refine Ensures.final (Ensures.bind ?_)
  unfold evaluate
  rw [show (breaking lib digits broken suffix).lib = lib from rfl, loaded]
  refine ensures_compute_done (fault_breaking calm') ?_
  rw [safe]
  refine Ensures.bind ((ensures_way calm (Files.skeleton_chain _)
    (Files.isDirectory_chain.mpr (List.dropLast_prefix _))).mono (fun _ m walked => ?_)
      fun _ _ failed => failed)
  exact later m walked

theorem not_whole_of_made {target : Target} (safe : target.refused = false) {path : List Text}
    (mem : path ∈ target.parents) (inside : target.resolved_output <+: path)
    (made : ¬path <+: target.start) :
    ¬Whole (breaking plainLibrary 0 isMkdir []) target emptyRoot (Files.chain target.start)
      (build (breaking plainLibrary 0 isMkdir []) target emptyRoot
        (started (Files.chain target.start))).2 := by
  refine LeftOver.not_whole (ensures_begun (fun _ => rfl) rfl emptyRoot_accepted safe _
    fun m walked => ?_)
  refine Ensures.bind (Ensures.bind (Ensures.journal (Ensures.bind (ensures_broken _ rfl ?_))))
  refine ⟨?_, ⟨path, inside, made, walked.made path mem⟩, walked.no_file⟩
  rw [after_raises, walked.raises]
  exact Nat.le_refl 1

/-! ## Where the parent is there already -/

def isRmdir : Op Text → Bool
  | .rmdir _ => true
  | _ => false

theorem Target.parent_mem (target : Target) : target.parent ∈ target.parents := by
  have general : ∀ (parts : List Part) (start : List Text),
      parts.foldl Part.follow start ∈ parts.scanl Part.follow start := by
    intro parts
    induction parts with
    | nil => exact fun start => List.mem_singleton.mpr rfl
    | cons part rest ih =>
        intro start
        rw [List.scanl_cons]
        exact List.mem_cons_of_mem _ (ih _)
  exact general target.parts target.start

/-- No name on the way to the parent is as long. -/
def Target.unused (target : Target) : Text :=
  text "x" ++ (target.start :: target.parents).flatten.flatten

theorem Target.length_lt_unused {target : Target} (path : List Text)
    (mem : path ∈ target.start :: target.parents) {name : Text} (inside : name ∈ path) :
    name.length < target.unused.length := by
  have among : name ∈ (target.start :: target.parents).flatten :=
    List.mem_flatten.mpr ⟨path, mem, inside⟩
  have least := (List.sublist_flatten_of_mem among).length_le
  rw [Target.unused, List.length_append]
  exact Nat.lt_add_left_iff_pos.mpr (by decide) |>.trans_le' least

theorem Target.new_name {target : Target} {m : Run}
    (walked : Walked target.parents
      (after (started (Files.chain target.start)) (Files.chain target.start) .compute false) m)
    (path : List Text) {name : Text} (inside : name ∈ path)
    (long : target.unused.length ≤ name.length) : m.state.isDirectory path = false := by
  rw [Bool.eq_false_iff]
  intro there
  refine absurd long (Nat.not_le.mpr ?_)
  rcases (walked.only path).mp there with early | made
  · obtain ⟨rest, same⟩ := Files.isDirectory_chain.mp early
    refine Target.length_lt_unused target.start List.mem_cons_self ?_
    rw [← same]
    exact List.mem_append_left _ inside
  · exact Target.length_lt_unused path (List.mem_cons_of_mem _ made) inside

theorem ensures_mkdtemp_done {name : Text} {dir : List Text} {done : List Text → Run → Prop}
    {raised : BuildError → Run → Prop} (calm : broken (.mkdir (dir ++ [name ++ suffix])) = false)
    (free : m.state.isFree (dir ++ [name ++ suffix]) = true)
    (inside : m.state.isDirectory dir = true)
    (working : done (dir ++ [name ++ suffix])
      (after m (m.state.put (dir ++ [name ++ suffix]) .directory)
        (.mkdir (dir ++ [name ++ suffix])) false)) :
    Ensures (mkdtemp (breaking lib digits broken suffix) name dir) m done raised := by
  refine Ensures.bind (Ensures.journal (Ensures.bind (ensures_done _ (fault_breaking calm) ?_
    (Ensures.pure working))))
  rw [Files.mkdir, show (breaking lib digits broken suffix).random m.journal = suffix from rfl,
    free, List.dropLast_concat, inside]
  rfl

theorem indexContent_empty : ∃ content bytes,
    indexContent (breaking lib digits broken suffix) [] = .ok content ∧
      Text.encode content = some bytes := by
  have written : (Text.encode (Json.canonical_json (.obj (Index.toDict ⟨[]⟩)))).isSome = true := by
    decide +kernel
  obtain ⟨bytes, encoded⟩ := Option.isSome_iff_exists.mp written
  exact ⟨_, bytes, rfl, encoded⟩

/-- The empty registry is generated where a directory is new. -/
theorem ensures_generate_empty {staging : List Text} {raised : BuildError → Run → Prop}
    (compute : broken .compute = false) (mkdir : ∀ path, broken (.mkdir path) = false)
    (write : ∀ path, broken (.write path) = false) (skeleton : m.state.Skeleton)
    (there : m.state.isDirectory staging = true)
    (fresh : ∀ name, m.state.isDirectory (staging ++ [name]) = false) :
    Ensures (generate (breaking lib digits broken suffix) staging []) m
      (fun _ m' => m'.raises = m.raises ∧ m'.locals = m.locals ∧ ∃ bytes, m'.state =
        (m.state.put (staging ++ [text "modules"]) .directory).put (staging ++ [text "index.json"])
          (.file bytes)) raised := by
  obtain ⟨content, bytes, rendered, encoded⟩ := @indexContent_empty lib digits broken suffix
  refine Ensures.bind (ensures_done (m.state.put (staging ++ [text "modules"]) .directory)
    (fault_breaking (mkdir _)) ?_ (Ensures.bind ?_))
  · rw [Files.mkdir, skeleton.isFree (fresh _), List.dropLast_concat, there]
    rfl
  · rw [evaluate, rendered]
    refine ensures_compute_done (fault_breaking compute) (Ensures.bind ?_)
    rw [writeText, encoded]
    refine ensures_done ((m.state.put (staging ++ [text "modules"]) .directory).put
      (staging ++ [text "index.json"]) (.file bytes)) (fault_breaking (write _)) ?_ ?_
    · have other : (m.state.put (staging ++ [text "modules"]) .directory).isDirectory
          (staging ++ [text "index.json"]) = false := by
        rw [Bool.eq_false_iff, ne_eq, Files.isDirectory_put, fresh]
        simp +decide
      have parent : (m.state.put (staging ++ [text "modules"]) .directory).isDirectory staging =
          true := Files.isDirectory_put.mpr (.inr there)
      rw [after_state, after_state, Files.write, other, List.dropLast_concat, parent]
      rfl
    · exact Ensures.pure ⟨by simp, rfl, bytes, rfl⟩

/-- An empty backup stands in the output, and the new tree is still staged. -/
structure Stuck (target : Target) (staging backup : List Text) (m : Run) : Prop where
  once : m.raises = 1
  named : m.locals.backup = some backup
  out : m.state.find target.resolved_output = some .directory
  staged : m.state.isDirectory staging = true
  left : m.state.isDirectory backup = true
  only : ∀ path content, m.state.find path = some (.file content) → staging <+: path

variable {target : Target} {staging backup : List Text}

theorem Stuck.restored (stuck : Stuck target staging backup m)
    (calm : ∀ path, broken (.stat path) = false) (error : BuildError)
    {done : Unit → Run → Prop} :
    Ensures (restore (breaking lib digits broken suffix) target error) m done
      fun _ m => Stuck target staging backup m := by
  refine Ensures.bind (Ensures.locals (Ensures.bind ?_))
  rw [stuck.named]
  refine Ensures.bind (ensures_stat_done (fault_breaking (calm _)) ?_)
  rw [stuck.out]
  refine Ensures.pure (Ensures.raise ?_)
  refine ⟨?_, stuck.named, stuck.out, stuck.staged, stuck.left, stuck.only⟩
  rw [after_raises, stuck.once]
  rfl

theorem Stuck.leftOver (stuck : Stuck target staging backup m) (apart : Files.Apart staging backup)
    (inside : target.resolved_output <+: backup) (new : ¬backup <+: target.start)
    (calm : ∀ path, broken (.stat path) = false) (calm' : ∀ path, broken (.rmtree path) = false)
    {raised : BuildError → Run → Prop} :
    Ensures (cleanup (breaking lib digits broken suffix) staging) m
      (fun _ m => LeftOver target m) raised := by
  refine Ensures.bind (ensures_stat_done (fault_breaking (calm _)) ?_)
  rw [Files.isDirectory_iff.mp stuck.staged]
  simp only [Option.isSome_some, if_true]
  refine ensures_done (m.state.clear staging) (fault_breaking (calm' _)) (if_pos stuck.staged)
    ⟨?_, ?_, ?_⟩
  · simp [stuck.once]
  · refine ⟨backup, inside, new, ?_⟩
    rw [after_state, Files.isDirectory_iff, Files.find_clear_of_not apart.1]
    exact Files.isDirectory_iff.mp stuck.left
  · intro path content found
    rw [after_state, Files.find_clear] at found
    split at found
    · cases found
    · rename_i outside
      exact outside (stuck.only path content found)

/-- The new tree is staged, and the output is there. -/
structure Staged (target : Target) (staging : List Text) (m : Run) : Prop where
  calm : m.raises = 0
  out : m.state.find target.resolved_output = some .directory
  parent : m.state.isDirectory target.parent = true
  staged : m.state.isDirectory staging = true
  only : ∀ path content, m.state.find path = some (.file content) → staging <+: path

theorem Staged.stuck (staged : Staged target staging m)
    (beside : target.parent ++ [label target ++ text "previous." ++ suffix] = backup)
    (free : m.state.isFree backup = true) {done : Unit → Run → Prop} :
    Ensures (swap (breaking plainLibrary 0 isRmdir suffix) target staging) m done
      fun _ m => Stuck target staging backup m := by
  refine Ensures.bind (Ensures.bind (ensures_stat_done rfl ?_))
  rw [staged.out]
  refine Ensures.bind (ensures_mkdtemp_done rfl ?_ staged.parent ?_)
  · rw [beside]
    exact free
  rw [beside]
  refine Ensures.bind (Ensures.assign (Ensures.bind (ensures_broken _ rfl ?_)))
  have old : ∀ path, m.state.find path ≠ none →
      (m.state.put backup .directory).find path = m.state.find path := by
    intro path there
    refine Files.find_put_of_ne ?_
    rintro rfl
    have missing := Files.find_of_isFree free []
    rw [List.append_nil] at missing
    exact there missing
  refine ⟨?_, rfl, ?_, ?_, ?_, ?_⟩
  · have calm := staged.calm
    rw [Machine.raises] at calm
    simp [Machine.raises, calm]
  · rw [after_state, after_state, ← staged.out]
    exact old _ (by simp [staged.out])
  · exact Files.isDirectory_put.mpr (.inr staged.staged)
  · exact Files.isDirectory_put.mpr (.inl rfl)
  · intro path content found
    rw [after_state, after_state, Files.find_put] at found
    split at found
    · cases found
    · exact staged.only path content found

/-- The empty registry is staged where nothing is yet. -/
theorem Walked.staged
    (walked : Walked target.parents
      (after (started (Files.chain target.start)) (Files.chain target.start) .compute false) m)
    (inside : target.resolved_output <+: target.parent) {staging : List Text}
    (new : ∀ rest, m.state.isDirectory (staging ++ rest) = false) {bytes : ByteArray} {m' : Run}
    (raises : m'.raises = m.raises)
    (state : m'.state = ((m.state.put staging .directory).put (staging ++ [text "modules"])
      .directory).put (staging ++ [text "index.json"]) (.file bytes)) :
    Staged target staging m' := by
  have kept : ∀ path, m.state.isDirectory path = true ∨ path = staging →
      m'.state.find path = some .directory := by
    intro path early
    rw [state, Files.find_put_of_ne, ← Files.isDirectory_iff, Files.isDirectory_put,
      Files.isDirectory_put]
    · exact .inr early.symm
    · rintro rfl
      rcases early with early | same
      · rw [new] at early
        cases early
      · simp at same
  have parent := walked.made _ target.parent_mem
  refine ⟨?_, ?_, ?_, ?_, ?_⟩
  · rw [raises, walked.raises]
    rfl
  · exact kept _ (.inl (walked.skeleton.closed _ parent _ inside))
  · exact Files.isDirectory_iff.mpr (kept _ (.inl parent))
  · exact Files.isDirectory_iff.mpr (kept _ (.inr rfl))
  · intro path content found
    rw [state, Files.find_put] at found
    split at found
    · rename_i same
      rw [same]
      exact List.prefix_append _ _
    · rw [Files.find_put, Files.find_put] at found
      split_ifs at found
      · cases found
      · cases found
      · exact absurd found (walked.no_file path content)

/-- The backup cannot be removed, and stays where the old tree should have gone. -/
theorem not_whole_of_inside (safe : target.refused = false)
    (inside : target.resolved_output <+: target.parent) :
    ¬Whole (breaking plainLibrary 0 isRmdir target.unused) target emptyRoot
      (Files.chain target.start)
      (build (breaking plainLibrary 0 isRmdir target.unused) target emptyRoot
        (started (Files.chain target.start))).2 := by
  refine LeftOver.not_whole (ensures_begun (fun _ => rfl) rfl emptyRoot_accepted safe _
    fun m walked => ?_)
  have parent := walked.made _ target.parent_mem
  have new := fun (start : Text) (rest : List Text) =>
    Target.new_name walked (target.parent ++ [start ++ target.unused] ++ rest)
      (List.mem_append_left rest List.mem_concat_self) (by simp)
  have newStaging := new (label target)
  have newBackup := new (label target ++ text "previous.") []
  rw [List.append_nil] at newBackup
  have free : m.state.isFree (target.parent ++ [label target ++ target.unused]) = true :=
    walked.skeleton.isFree (by simpa using newStaging [])
  have apart := Files.apart_siblings target.parent
    (a := label target ++ text "previous." ++ target.unused) (b := label target ++ target.unused)
    (by simp +decide)
  have skeleton := walked.skeleton.put (target.parent ++ [label target ++ target.unused])
    (by rwa [List.dropLast_concat])
  refine Ensures.bind (ensures_mkdtemp_done rfl free parent ?_)
  generalize target.parent ++ [label target ++ target.unused] = staging at *
  refine Ensures.bind (Ensures.assign (Ensures.andFinally (Ensures.handle (Ensures.bind
    ((ensures_generate_empty rfl (fun _ => rfl) (fun _ => rfl) skeleton
      (Files.isDirectory_put.mpr (.inl rfl)) fun name => ?_).mono (fun _ m' generated => ?_)
        fun _ _ failed => failed)))))
  · rw [after_state, Bool.eq_false_iff, ne_eq, Files.isDirectory_put, newStaging [name]]
    simp
  obtain ⟨raises, -, bytes, state⟩ := generated
  have staged := walked.staged inside newStaging (raises.trans (by simp [Machine.raises])) state
  have outer := inside.trans (List.prefix_append target.parent
    [label target ++ text "previous." ++ target.unused])
  have later : ¬target.parent ++ [label target ++ text "previous." ++ target.unused] <+:
      target.start := by
    intro early
    rw [(walked.only _).mpr (.inl (Files.isDirectory_chain.mpr early))] at newBackup
    cases newBackup
  refine (staged.stuck rfl ?_).mono (fun _ _ failed => failed) fun error m stuck => ?_
  · rw [Files.isFree_iff, state]
    intro entry mem
    rcases List.mem_cons.mp mem with rfl | mem
    · exact apart.not_below _
    rcases List.mem_cons.mp mem with rfl | mem
    · exact apart.not_below _
    rcases List.mem_cons.mp mem with rfl | mem
    · exact apart.1
    · intro below
      rw [walked.skeleton.closed _ (walked.skeleton.isDirectory_of_mem mem) _ below] at newBackup
      cases newBackup
  · exact (stuck.restored (fun _ => rfl) error).mono (fun _ _ whole => whole) fun _ _ stuck =>
      (stuck.leftOver apart.symm outer later (fun _ => rfl) fun _ => rfl).mono
        (fun _ _ left => left) fun _ _ left => left

/-- `build` is all or nothing exactly for the outputs that are refused or lie beside their way. -/
theorem build_all_or_nothing (target : Target) :
    AllOrNothing target ↔ target.refused = true ∨ target.Beside := by
  constructor
  · intro whole
    by_contra neither
    rw [not_or, Bool.not_eq_true] at neither
    obtain ⟨safe, inside⟩ := neither
    have begins : ∀ path, path <+: target.start →
        (Files.chain target.start : Files Text ByteArray).isDirectory path = true :=
      fun path => Files.isDirectory_chain.mpr
    rw [Target.Beside, Classical.not_and_iff_not_or_not, not_not] at inside
    rcases inside with inside | made
    · exact not_whole_of_inside safe inside (whole _ emptyRoot ⟨_, begins⟩)
    · simp only [not_forall, exists_prop] at made
      obtain ⟨path, mem, inside, made⟩ := made
      exact not_whole_of_made safe mem inside made (whole _ emptyRoot ⟨_, begins⟩)
  · exact fun safe setting root site => whole_of_beside site safe

end

/-- The output `/srv/dist/new/..` -/
def roundabout : Target where
  repository_root := [text "srv", text "repository"]
  registry_root := [text "srv", text "registry"]
  output := text "/srv/dist/new/.."
  resolved_output := [text "srv", text "dist"]
  is_symlink := false
  start := []
  parts := [.name (text "srv"), .name (text "dist"), .name (text "new")]
  last := .up
  resolves := fun _ => rfl

def roundaboutSite : Site roundabout where
  files := Files.chain [text "srv", text "dist"]
  begins := fun _ inside => Files.isDirectory_chain.mpr (inside.trans List.nil_prefix)

def roundaboutSetting : Setting := breaking plainLibrary 0 (fun _ => false) (text "x")

def roundaboutRun : Run :=
  (build roundaboutSetting roundabout emptyRoot (started roundaboutSite.files)).2

/-- Without a fault from outside: the directory cannot be moved into itself, and `new` stays. -/
theorem roundabout_not_whole : ¬AllOrNothing roundabout := by
  have once : roundaboutRun.raises ≤ 1 := by decide +kernel
  have left : roundaboutRun.state.under roundabout.resolved_output [text "new"] =
      some .directory := by decide +kernel
  have missing : roundaboutRun.state.under roundabout.resolved_output [text "index.json"] =
      none := by decide +kernel
  have before : roundaboutSite.files.under roundabout.resolved_output [text "new"] = none := by
    decide +kernel
  intro whole
  have ends : Whole roundaboutSetting roundabout emptyRoot roundaboutSite.files roundaboutRun :=
    whole roundaboutSetting emptyRoot roundaboutSite
  generalize roundaboutRun = m at *
  rcases (ends once).1 with old | ⟨files, built, holds⟩
  · have same := old [text "new"]
    rw [left, before] at same
    cases same
  · obtain ⟨bytes, index⟩ := deployed_emptyRoot built
    have found := holds [text "index.json"]
    rw [missing, index] at found
    cases found

end PackageRegistry.Replacement
