import Mathlib.Data.List.Infix

/-! # Trees of files

Files and directories under their absolute paths, and what the calls that make, rename and
remove them do to such a tree. A call that cannot be done gives `none`.
-/

namespace FileTree

/-- A file stands for everything that holds no entries. -/
inductive Node (β : Type) where
  | directory
  | file (content : β)
  deriving DecidableEq

/-- What is found under a path is its first entry. -/
structure Files (α β : Type) where
  entries : List (List α × Node β)
  deriving DecidableEq

variable {α β : Type} [DecidableEq α]

namespace Files

def find (files : Files α β) (path : List α) : Option (Node β) :=
  (files.entries.find? fun entry => entry.1 = path).map (·.2)

def put (files : Files α β) (path : List α) (node : Node β) : Files α β :=
  ⟨(path, node) :: files.entries⟩

def without (files : Files α β) (gone : List α → Bool) : Files α β :=
  ⟨files.entries.filter fun entry => !gone entry.1⟩

def clear (files : Files α β) (path : List α) : Files α β :=
  files.without path.isPrefixOf

def moved (src dst path : List α) : List α :=
  if src <+: path then dst ++ path.drop src.length else path

def move (files : Files α β) (src dst : List α) : Files α β :=
  ⟨(files.clear dst).entries.map fun entry => (moved src dst entry.1, entry.2)⟩

/-- Nothing is there, nor below. -/
def isFree (files : Files α β) (path : List α) : Bool :=
  files.entries.all fun entry => !path.isPrefixOf entry.1

/-- A directory without entries -/
def isEmpty (files : Files α β) (path : List α) : Bool :=
  (files.find path matches some .directory) &&
    files.entries.all fun entry => !path.isPrefixOf entry.1 || path = entry.1

def isDirectory (files : Files α β) (path : List α) : Bool :=
  files.find path matches some .directory

/-! ## Calls -/

def mkdir (files : Files α β) (path : List α) : Option (Files α β) :=
  if files.isFree path && files.isDirectory path.dropLast then some (files.put path .directory)
  else none

def write (files : Files α β) (path : List α) (content : β) : Option (Files α β) :=
  if !files.isDirectory path && files.isDirectory path.dropLast then
    some (files.put path (.file content))
  else none

def rmdir (files : Files α β) (path : List α) : Option (Files α β) :=
  if files.isEmpty path then some (files.clear path) else none

/-- Whether what is under `src` may take the place of what is under `dst`. -/
def replaces (files : Files α β) (src dst : List α) : Bool :=
  match files.find src, files.find dst with
  | some _, none => true
  | some .directory, some .directory => files.isEmpty dst
  | some (.file _), some (.file _) => true
  | _, _ => false

/-- `rename` between two places of which neither lies in the other -/
def rename (files : Files α β) (src dst : List α) : Option (Files α β) :=
  if ¬src <+: dst ∧ ¬dst <+: src ∧ files.isDirectory dst.dropLast ∧ files.replaces src dst then
    some (files.move src dst)
  else none

def rmtree (files : Files α β) (path : List α) : Option (Files α β) :=
  if files.isDirectory path then some (files.clear path) else none

/-! ## What is found afterwards -/

variable {files files' : Files α β} {path src dst other rest : List α} {node : Node β} {content : β}

theorem find_put : (files.put path node).find other =
    if other = path then some node else files.find other := by
  rw [find, put, List.find?_cons]
  by_cases here : other = path
  · simp [here]
  · rw [if_neg here]
    simp [Ne.symm here, find]

theorem find_put_self : (files.put path node).find path = some node := by
  rw [find_put, if_pos rfl]

theorem find_put_of_ne (ne : other ≠ path) :
    (files.put path node).find other = files.find other := by
  rw [find_put, if_neg ne]

theorem find_without {gone : List α → Bool} : (files.without gone).find path =
    if gone path then none else files.find path := by
  rw [find, without, List.find?_filter, find]
  by_cases dead : gone path = true
  · rw [if_pos dead, List.find?_eq_none.mpr, Option.map_none]
    intro entry _ both
    simp only [decide_eq_true_eq] at both
    rw [both.2, dead] at both
    cases both.1
  · rw [if_neg dead]
    congr 2
    funext entry
    by_cases here : entry.1 = path
    · simp [here, dead]
    · simp [here]

theorem isPrefixOf_iff : path.isPrefixOf other = true ↔ path <+: other := List.isPrefixOf_iff_prefix

theorem find_clear : (files.clear path).find other =
    if path <+: other then none else files.find other := by
  rw [clear, find_without]
  simp only [List.isPrefixOf_iff_prefix]

theorem find_clear_below : (files.clear path).find (path ++ rest) = none := by
  rw [find_clear, if_pos (List.prefix_append path rest)]

theorem find_clear_of_not (outside : ¬path <+: other) :
    (files.clear path).find other = files.find other := by
  rw [find_clear, if_neg outside]

/-- No entry of a cleared tree is below the path that was cleared. -/
theorem not_prefix_of_mem_clear {entry : List α × Node β}
    (mem : entry ∈ (files.clear path).entries) : ¬path <+: entry.1 := by
  have kept := (List.mem_filter.mp mem).2
  intro inside
  rw [List.isPrefixOf_iff_prefix.mpr inside] at kept
  cases kept

theorem find_map {entries : List (List α × Node β)} {f : List α → List α}
    (only : ∀ entry ∈ entries, f entry.1 = other ↔ entry.1 = path) :
    Files.find ⟨entries.map fun entry => (f entry.1, entry.2)⟩ other =
      Files.find ⟨entries⟩ path := by
  induction entries with
  | nil => rfl
  | cons entry others ih =>
      rw [List.forall_mem_cons] at only
      have later := ih only.2
      rw [find, find] at later ⊢
      rw [List.map_cons, List.find?_cons, List.find?_cons]
      by_cases here : entry.1 = path
      · rw [decide_eq_true (only.1.mpr here), decide_eq_true here]
        rfl
      · rw [decide_eq_false fun same => here (only.1.mp same), decide_eq_false here]
        exact later

section

variable (apart : ¬src <+: dst) (apart' : ¬dst <+: src)

include apart apart' in
theorem find_move_below : (files.move src dst).find (dst ++ rest) = files.find (src ++ rest) := by
  have outside : ¬dst <+: src ++ rest := by
    intro inside
    rcases List.prefix_or_prefix_of_prefix inside (List.prefix_append src rest) with h | h
    · exact apart' h
    · exact apart h
  rw [← find_clear_of_not outside, move]
  refine find_map fun entry mem => ?_
  unfold moved
  split
  · rename_i inside
    obtain ⟨rest', same⟩ := inside
    rw [← same, List.drop_left, List.append_cancel_left_eq, List.append_cancel_left_eq]
  · rename_i ne
    constructor
    · intro same
      exact absurd ⟨rest, same.symm⟩ (not_prefix_of_mem_clear mem)
    · intro same
      exact absurd ⟨rest, same.symm⟩ ne

include apart apart' in
theorem find_move_gone : (files.move src dst).find (src ++ rest) = none := by
  rw [find, move, List.find?_eq_none.mpr, Option.map_none]
  intro entry mem
  obtain ⟨before, -, rfl⟩ := List.mem_map.mp mem
  simp only [decide_eq_true_eq]
  unfold moved
  split
  · intro same
    have inside : dst <+: src ++ rest := ⟨_, same⟩
    rcases List.prefix_or_prefix_of_prefix inside (List.prefix_append src rest) with h | h
    · exact apart' h
    · exact apart h
  · rename_i ne
    intro same
    exact ne ⟨rest, same.symm⟩

end

theorem find_move_other (notSrc : ¬src <+: other) (notDst : ¬dst <+: other) :
    (files.move src dst).find other = files.find other := by
  refine Eq.trans ?_ (find_clear_of_not notDst)
  rw [move]
  refine find_map fun entry mem => ?_
  unfold moved
  split
  · rename_i inside
    constructor
    · intro same
      exact absurd ⟨_, same⟩ notDst
    · intro same
      exact absurd (same ▸ inside) notSrc
  · exact Iff.rfl

/-! ## What a call has found and done -/

theorem isDirectory_iff : files.isDirectory path = true ↔ files.find path = some .directory := by
  rw [isDirectory]
  split
  · rename_i found
    simp [found]
  · rename_i other
    constructor
    · nofun
    · intro found
      exact absurd found other

theorem isFree_iff : files.isFree path = true ↔ ∀ entry ∈ files.entries, ¬path <+: entry.1 := by
  rw [isFree, List.all_eq_true]
  refine forall₂_congr fun entry _ => ?_
  rw [Bool.not_eq_true', Bool.eq_false_iff, ne_eq, List.isPrefixOf_iff_prefix]

theorem find_of_isFree (free : files.isFree path = true) (rest : List α) :
    files.find (path ++ rest) = none := by
  rw [find, List.find?_eq_none.mpr, Option.map_none]
  intro entry mem same
  rw [decide_eq_true_eq] at same
  exact isFree_iff.mp free entry mem (same ▸ List.prefix_append path rest)

theorem mkdir_some (done : files.mkdir path = some files') :
    (∀ rest, files.find (path ++ rest) = none) ∧ files.find path.dropLast = some .directory ∧
      files' = files.put path .directory := by
  rw [mkdir, Option.ite_none_right_eq_some, Bool.and_eq_true, isDirectory_iff] at done
  exact ⟨find_of_isFree done.1.1, done.1.2, (Option.some.inj done.2).symm⟩

theorem write_some (done : files.write path content = some files') :
    files.find path.dropLast = some .directory ∧ files' = files.put path (.file content) := by
  rw [write, Option.ite_none_right_eq_some, Bool.and_eq_true, isDirectory_iff] at done
  exact ⟨done.1.2, (Option.some.inj done.2).symm⟩

theorem rmdir_some (done : files.rmdir path = some files') : files' = files.clear path := by
  rw [rmdir, Option.ite_none_right_eq_some] at done
  exact (Option.some.inj done.2).symm

theorem rename_some (done : files.rename src dst = some files') :
    ¬src <+: dst ∧ ¬dst <+: src ∧ files' = files.move src dst := by
  rw [rename, Option.ite_none_right_eq_some] at done
  exact ⟨done.1.1, done.1.2.1, (Option.some.inj done.2).symm⟩

theorem rmtree_some (done : files.rmtree path = some files') : files' = files.clear path := by
  rw [rmtree, Option.ite_none_right_eq_some] at done
  exact (Option.some.inj done.2).symm

/-! ## What is under a path -/

/-- Neither path lies in the other. -/
def Apart (path other : List α) : Prop := ¬path <+: other ∧ ¬other <+: path

omit [DecidableEq α] in
theorem Apart.symm {path other : List α} (apart : Apart path other) : Apart other path :=
  ⟨apart.2, apart.1⟩

omit [DecidableEq α] in
theorem Apart.not_below {path other : List α} (apart : Apart path other) (rest : List α) :
    ¬path <+: other ++ rest := by
  intro inside
  rcases List.prefix_or_prefix_of_prefix inside (List.prefix_append other rest) with h | h
  · exact apart.1 h
  · exact apart.2 h

omit [DecidableEq α] in
theorem apart_siblings (parent : List α) {a b : α} (ne : a ≠ b) :
    Apart (parent ++ [a]) (parent ++ [b]) := by
  constructor
  · intro inside
    rw [List.prefix_append_right_inj, List.cons_prefix_cons] at inside
    exact ne inside.1
  · intro inside
    rw [List.prefix_append_right_inj, List.cons_prefix_cons] at inside
    exact ne inside.1.symm

/-- What is under the path, by what follows the path -/
def under (files : Files α β) (path rest : List α) : Option (Node β) := files.find (path ++ rest)

def Holds (files : Files α β) (path : List α) (tree : List α → Option (Node β)) : Prop :=
  ∀ rest, files.under path rest = tree rest

def nothing : List α → Option (Node β) := fun _ => none

def emptyDirectory : List α → Option (Node β)
  | [] => some .directory
  | _ => none

variable {tree : List α → Option (Node β)}

theorem Holds.here (holds : files.Holds path tree) : files.find path = tree [] := by
  have found := holds []
  rwa [under, List.append_nil] at found

theorem Holds.put_other (holds : files.Holds path tree) (outside : ¬path <+: other)
    (node : Node β) : (files.put other node).Holds path tree := by
  intro rest
  rw [under, find_put_of_ne]
  · exact holds rest
  rintro rfl
  exact outside (List.prefix_append path rest)

/-- One more file in a tree -/
theorem Holds.put (holds : files.Holds path tree) (inner : List α) (node : Node β) :
    (files.put (path ++ inner) node).Holds path fun rest =>
      if rest = inner then some node else tree rest := by
  intro rest
  simp only [under, find_put, List.append_cancel_left_eq, ← holds rest]

theorem Holds.mkdir (free : ∀ rest, files.find (path ++ rest) = none) :
    (files.put path .directory).Holds path emptyDirectory := by
  intro rest
  rw [under, find_put, free rest]
  cases rest with
  | nil => rw [List.append_nil, if_pos rfl, emptyDirectory]
  | cons name others =>
      rw [if_neg (by simp)]
      rfl

theorem holds_clear (files : Files α β) (path : List α) : (files.clear path).Holds path nothing :=
  fun _ => find_clear_below

theorem Holds.clear_other (holds : files.Holds path tree) (apart : Apart other path) :
    (files.clear other).Holds path tree := fun rest =>
  (find_clear_of_not (apart.not_below rest)).trans (holds rest)

theorem Holds.without_other (holds : files.Holds path tree) (apart : Apart other path)
    (removed : List α → Bool) :
    (files.without fun q => other.isPrefixOf q && removed q).Holds path tree := by
  intro rest
  have outside : other.isPrefixOf (path ++ rest) = false := by
    rw [Bool.eq_false_iff]
    intro inside
    exact apart.not_below rest (List.isPrefixOf_iff_prefix.mp inside)
  rw [under, find_without, outside, Bool.false_and, if_neg (by decide)]
  exact holds rest

theorem Holds.move (holds : files.Holds src tree) (apart : Apart src dst) :
    (files.move src dst).Holds dst tree := fun rest =>
  (find_move_below apart.1 apart.2).trans (holds rest)

theorem holds_moved (files : Files α β) (apart : Apart src dst) :
    (files.move src dst).Holds src nothing := fun _ => find_move_gone apart.1 apart.2

theorem Holds.move_other (holds : files.Holds path tree) (notSrc : Apart src path)
    (notDst : Apart dst path) : (files.move src dst).Holds path tree := fun rest =>
  (find_move_other (notSrc.not_below rest) (notDst.not_below rest)).trans (holds rest)

/-! ## Trees of directories -/

/-- Only directories, each in a directory -/
structure Skeleton (files : Files α β) : Prop where
  directories : ∀ entry ∈ files.entries, entry.2 = .directory
  closed : ∀ path, files.isDirectory path = true → ∀ other, other <+: path →
    files.isDirectory other = true

/-- The directories on the way to a path -/
def chain (path : List α) : Files α β := ⟨path.inits.map fun p => (p, .directory)⟩

theorem Skeleton.eq_directory (skeleton : files.Skeleton) (found : files.find path = some node) :
    node = .directory := by
  rw [find, Option.map_eq_some_iff] at found
  obtain ⟨entry, first, rfl⟩ := found
  exact skeleton.directories entry (List.mem_of_find?_eq_some first)

theorem Skeleton.isDirectory_of_mem (skeleton : files.Skeleton) {entry : List α × Node β}
    (mem : entry ∈ files.entries) : files.isDirectory entry.1 = true := by
  rw [isDirectory_iff]
  cases found : files.find entry.1 with
  | some node => rw [skeleton.eq_directory found]
  | none =>
      rw [find, Option.map_eq_none_iff, List.find?_eq_none] at found
      exact absurd (by simp) (found entry mem)

theorem isDirectory_chain {path other : List α} :
    (chain path : Files α β).isDirectory other = true ↔ other <+: path := by
  rw [isDirectory_iff]
  constructor
  · intro found
    rw [find, Option.map_eq_some_iff] at found
    obtain ⟨entry, first, -⟩ := found
    obtain ⟨p, mem, rfl⟩ := List.mem_map.mp (List.mem_of_find?_eq_some first)
    have same := List.find?_some first
    simp only [decide_eq_true_eq] at same
    rw [← same]
    exact (List.mem_inits _ _).mp mem
  · intro inside
    cases found : (chain path : Files α β).find other with
    | some node =>
        rw [find, Option.map_eq_some_iff] at found
        obtain ⟨entry, first, rfl⟩ := found
        obtain ⟨p, -, rfl⟩ := List.mem_map.mp (List.mem_of_find?_eq_some first)
        rfl
    | none =>
        rw [find, Option.map_eq_none_iff, List.find?_eq_none] at found
        have there := List.mem_map_of_mem (f := fun p => (p, (Node.directory : Node β)))
          ((List.mem_inits other path).mpr inside)
        exact absurd (by simp) (found _ there)

theorem skeleton_chain (path : List α) : (chain path : Files α β).Skeleton where
  directories := by
    intro entry mem
    obtain ⟨p, -, rfl⟩ := List.mem_map.mp mem
    rfl
  closed := by
    intro other there inner inside
    rw [isDirectory_chain] at there ⊢
    exact inside.trans there

/-- Where no directory is, there is nothing, nor below. -/
theorem Skeleton.isFree (skeleton : files.Skeleton) (missing : files.isDirectory path = false) :
    files.isFree path = true := by
  refine isFree_iff.mpr fun entry mem inside => ?_
  rw [skeleton.closed _ (skeleton.isDirectory_of_mem mem) path inside] at missing
  cases missing

theorem isDirectory_put : (files.put path .directory).isDirectory other = true ↔
    other = path ∨ files.isDirectory other = true := by
  rw [isDirectory_iff, isDirectory_iff, find_put]
  split <;> simp [*]

theorem Skeleton.put (skeleton : files.Skeleton) (path : List α)
    (inside : files.isDirectory path.dropLast = true) : (files.put path .directory).Skeleton where
  directories := by
    intro entry mem
    rcases List.mem_cons.mp mem with rfl | old
    · rfl
    · exact skeleton.directories entry old
  closed := by
    intro other there inner prefixed
    rw [isDirectory_put] at there ⊢
    rcases there with rfl | there
    · rcases eq_or_ne inner other with same | ne
      · exact .inl same
      · obtain ⟨rest, rfl⟩ := prefixed
        have some_ : rest ≠ [] := by
          rintro rfl
          exact ne (List.append_nil inner).symm
        rw [List.dropLast_append_of_ne_nil some_] at inside
        exact .inr (skeleton.closed _ inside inner (List.prefix_append _ _))
    · exact .inr (skeleton.closed _ there inner prefixed)

end Files

end FileTree
