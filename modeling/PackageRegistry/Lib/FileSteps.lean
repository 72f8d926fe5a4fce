import PackageRegistry.Lib.FileTree
import PackageRegistry.Lib.Raising

/-! # File operations that may raise

The calls of a program on a tree of files. A call raises where it cannot be done, and whenever
the world lets it: a file that is being written is then left with any content, and a tree that
is being removed with any part of it.
-/

namespace FileSteps

open FileTree Raising

inductive Op (α : Type) where
  | compute
  | mkdir (path : List α)
  | ensureDirectory (path : List α)
  | stat (path : List α)
  | write (path : List α)
  | rmdir (path : List α)
  | replace (src dst : List α)
  | rmtree (path : List α)
  deriving DecidableEq

/-- What a call has done before it raises -/
structure Damage (α β : Type) where
  written : Option β
  removed : List α → Bool

abbrev Journal (α : Type) := List (Op α × Bool)

structure World (α β ε : Type) where
  fault : Journal α → Op α → Option (Damage α β)
  error : ε

abbrev Program (α β ε V γ : Type) := Act (Files α β) (Op α) V ε γ

abbrev Computer (α β V : Type) := Machine (Files α β) (Op α) V

/-- The machine after a call -/
def after {α β V : Type} (m : Computer α β V) (files : Files α β) (op : Op α) (raised : Bool) :
    Computer α β V :=
  { m with state := files, journal := m.journal ++ [(op, raised)] }

section

variable {α β ε V γ : Type}

@[simp] theorem after_state (m : Computer α β V) (files : Files α β) (op : Op α) (raised : Bool) :
    (after m files op raised).state = files := rfl

@[simp] theorem after_locals (m : Computer α β V) (files : Files α β) (op : Op α) (raised : Bool) :
    (after m files op raised).locals = m.locals := rfl

@[simp] theorem after_journal (m : Computer α β V) (files : Files α β) (op : Op α) (raised : Bool) :
    (after m files op raised).journal = m.journal ++ [(op, raised)] := rfl

@[simp] theorem after_raises (m : Computer α β V) (files : Files α β) (op : Op α) (raised : Bool) :
    (after m files op raised).raises = m.raises + if raised then 1 else 0 :=
  raises_append files m.journal op raised m.locals

variable [DecidableEq α] (world : World α β ε)

/-! ## Calls -/

def call (op : Op α) (works : Files α β → Option (Files α β))
    (breaks : Damage α β → Files α β → Files α β) : Program α β ε V Unit :=
  Act.step world.fault world.error op
    (fun files =>
      match works files with
      | some files' => (.ok (), files')
      | none => (.error world.error, files))
    breaks

def mkdir (path : List α) : Program α β ε V Unit :=
  call world (.mkdir path) (·.mkdir path) fun _ files => files

/-- `mkdir` where a directory may be there already -/
def ensureDirectory (path : List α) : Program α β ε V Unit :=
  call world (.ensureDirectory path)
    (fun files => if files.isDirectory path then some files else files.mkdir path)
    fun _ files => files

def write (path : List α) (content : β) : Program α β ε V Unit :=
  call world (.write path) (·.write path content)
    fun damage files => (damage.written.bind (files.write path)).getD files

def rmdir (path : List α) : Program α β ε V Unit :=
  call world (.rmdir path) (·.rmdir path) fun _ files => files

def replace (src dst : List α) : Program α β ε V Unit :=
  call world (.replace src dst) (·.rename src dst) fun _ files => files

def rmtree (path : List α) : Program α β ε V Unit :=
  call world (.rmtree path) (·.rmtree path)
    fun damage files => files.without fun q => path.isPrefixOf q && damage.removed q

/-- Whether something is there -/
def stat (path : List α) : Program α β ε V Bool :=
  Act.step world.fault world.error (.stat path) (fun files => (.ok (files.find path).isSome, files))
    fun _ files => files

def compute (x : Except ε γ) : Program α β ε V γ :=
  Act.step world.fault world.error .compute (fun files => (x, files)) fun _ files => files

/-! ## Rules -/

variable {world} {m : Computer α β V} {raised : ε → Computer α β V → Prop}

omit [DecidableEq α] in
theorem ensures_call {op : Op α} {works : Files α β → Option (Files α β)}
    {breaks : Damage α β → Files α β → Files α β} {done : Unit → Computer α β V → Prop}
    (breaking : ∀ damage, world.fault m.journal op = some damage →
      raised world.error (after m (breaks damage m.state) op true))
    (failing : works m.state = none → raised world.error (after m m.state op true))
    (working : ∀ files, works m.state = some files → done () (after m files op false)) :
    Ensures (call world op works breaks) m done raised := by
  refine Ensures.step breaking ?_ ?_
  · intro e files worked
    split at worked
    · cases worked
    · rename_i impossible
      cases worked
      exact failing impossible
  · intro x files worked
    split at worked
    · rename_i possible
      cases worked
      exact working _ possible
    · cases worked

omit [DecidableEq α] in
/-- A call that changes nothing when it raises -/
theorem ensures_clean {op : Op α} {works : Files α β → Option (Files α β)}
    {done : Unit → Computer α β V → Prop}
    (raising : raised world.error (after m m.state op true))
    (working : ∀ files, works m.state = some files → done () (after m files op false)) :
    Ensures (call world op works fun _ files => files) m done raised :=
  ensures_call (fun _ _ => raising) (fun _ => raising) working

theorem ensures_stat {path : List α} {done : Bool → Computer α β V → Prop}
    (raising : raised world.error (after m m.state (.stat path) true))
    (working : done (m.state.find path).isSome (after m m.state (.stat path) false)) :
    Ensures (stat world path) m done raised := by
  refine Ensures.step (fun _ _ => raising) ?_ ?_
  · intro e files worked
    cases worked
  · intro x files worked
    cases worked
    exact working

omit [DecidableEq α] in
theorem ensures_compute {x : Except ε γ} {done : γ → Computer α β V → Prop}
    (raising : ∀ e, raised e (after m m.state .compute true))
    (working : ∀ y, x = .ok y → done y (after m m.state .compute false)) :
    Ensures (compute world x) m done raised := by
  refine Ensures.step (fun _ _ => raising world.error) ?_ ?_
  · intro e files worked
    cases worked
    exact raising e
  · intro y files worked
    cases worked
    exact working y rfl

omit [DecidableEq α] in
/-- A call that can be done, where nothing breaks it -/
theorem ensures_done {op : Op α} {works : Files α β → Option (Files α β)}
    {breaks : Damage α β → Files α β → Files α β} {done : Unit → Computer α β V → Prop}
    (files : Files α β) (calm : world.fault m.journal op = none)
    (possible : works m.state = some files) (working : done () (after m files op false)) :
    Ensures (call world op works breaks) m done raised := by
  refine ensures_call (fun damage broken => ?_) (fun impossible => ?_) fun files' worked => ?_
  · rw [calm] at broken
    cases broken
  · rw [possible] at impossible
    cases impossible
  · rw [possible] at worked
    cases worked
    exact working

omit [DecidableEq α] in
theorem ensures_broken {op : Op α} {works : Files α β → Option (Files α β)}
    {breaks : Damage α β → Files α β → Files α β} {done : Unit → Computer α β V → Prop}
    (damage : Damage α β) (broken : world.fault m.journal op = some damage)
    (raising : raised world.error (after m (breaks damage m.state) op true)) :
    Ensures (call world op works breaks) m done raised := by
  rw [Ensures, call, Act.step, broken]
  exact raising

theorem ensures_stat_broken {path : List α} {done : Bool → Computer α β V → Prop}
    (damage : Damage α β) (broken : world.fault m.journal (.stat path) = some damage)
    (raising : raised world.error (after m m.state (.stat path) true)) :
    Ensures (stat world path) m done raised := by
  rw [Ensures, stat, Act.step, broken]
  exact raising

theorem ensures_stat_done {path : List α} {done : Bool → Computer α β V → Prop}
    (calm : world.fault m.journal (.stat path) = none)
    (working : done (m.state.find path).isSome (after m m.state (.stat path) false)) :
    Ensures (stat world path) m done raised := by
  refine Ensures.step (fun damage broken => ?_) (fun e files worked => ?_) fun x files worked => ?_
  · rw [calm] at broken
    cases broken
  · cases worked
  · cases worked
    exact working

omit [DecidableEq α] in
theorem ensures_compute_done {y : γ} {done : γ → Computer α β V → Prop}
    (calm : world.fault m.journal .compute = none)
    (working : done y (after m m.state .compute false)) :
    Ensures (compute world (.ok y)) m done raised := by
  refine Ensures.step (fun damage broken => ?_) (fun e files worked => ?_) fun x files worked => ?_
  · rw [calm] at broken
    cases broken
  · cases worked
  · cases worked
    exact working

variable {done : Unit → Computer α β V → Prop} {path src dst : List α} {content : β}

theorem ensures_mkdir (raising : raised world.error (after m m.state (.mkdir path) true))
    (working : (∀ rest, m.state.find (path ++ rest) = none) →
      done () (after m (m.state.put path .directory) (.mkdir path) false)) :
    Ensures (mkdir world path) m done raised := by
  refine ensures_clean raising fun files made => ?_
  obtain ⟨free, -, rfl⟩ := Files.mkdir_some made
  exact working free

theorem ensures_ensureDirectory
    (raising : raised world.error (after m m.state (.ensureDirectory path) true))
    (present : m.state.isDirectory path = true →
      done () (after m m.state (.ensureDirectory path) false))
    (made : m.state.isDirectory path = false → (∀ rest, m.state.find (path ++ rest) = none) →
      done () (after m (m.state.put path .directory) (.ensureDirectory path) false)) :
    Ensures (ensureDirectory world path) m done raised := by
  refine ensures_clean raising fun files works => ?_
  split at works
  · rename_i there
    cases works
    exact present there
  · rename_i missing
    obtain ⟨free, -, rfl⟩ := Files.mkdir_some works
    exact made (Bool.not_eq_true _ ▸ missing) free

theorem ensures_write (raising : raised world.error (after m m.state (.write path) true))
    (breaking : ∀ part, raised world.error
      (after m (m.state.put path (.file part)) (.write path) true))
    (working : done () (after m (m.state.put path (.file content)) (.write path) false)) :
    Ensures (write world path content) m done raised := by
  refine ensures_call (fun damage _ => ?_) (fun _ => raising) fun files wrote => ?_
  · cases partly : damage.written.bind (m.state.write path) with
    | none => exact raising
    | some files =>
        obtain ⟨part, -, wrote⟩ := Option.bind_eq_some_iff.mp partly
        obtain ⟨-, rfl⟩ := Files.write_some wrote
        exact breaking part
  · obtain ⟨-, rfl⟩ := Files.write_some wrote
    exact working

theorem ensures_rmdir (raising : raised world.error (after m m.state (.rmdir path) true))
    (working : done () (after m (m.state.clear path) (.rmdir path) false)) :
    Ensures (rmdir world path) m done raised := by
  refine ensures_clean raising fun files removed => ?_
  obtain rfl := Files.rmdir_some removed
  exact working

theorem ensures_replace (raising : raised world.error (after m m.state (.replace src dst) true))
    (working : Files.Apart src dst →
      done () (after m (m.state.move src dst) (.replace src dst) false)) :
    Ensures (replace world src dst) m done raised := by
  refine ensures_clean raising fun files renamed => ?_
  obtain ⟨apart, apart', rfl⟩ := Files.rename_some renamed
  exact working ⟨apart, apart'⟩

theorem ensures_rmtree
    (breaking : ∀ removed : List α → Bool, raised world.error
      (after m (m.state.without fun q => path.isPrefixOf q && removed q) (.rmtree path) true))
    (failing : raised world.error (after m m.state (.rmtree path) true))
    (working : done () (after m (m.state.clear path) (.rmtree path) false)) :
    Ensures (rmtree world path) m done raised := by
  refine ensures_call (fun damage _ => breaking damage.removed) (fun _ => failing)
    fun files gone => ?_
  obtain rfl := Files.rmtree_some gone
  exact working

end

end FileSteps
