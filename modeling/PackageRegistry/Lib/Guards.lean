import PackageRegistry.Lib.RelationalRules

/-! # Rows behind a lock on another row

Some rows change only under a lock on something else, such as the row that they belong to. A
transaction that holds this lock finds all of them as they are at its end. And a row that it
refers to has been there ever since it was locked.
-/

namespace Relational

open Transactions

variable {Name : Type} {Row : Name → Type} {Key Q ε α : Type}

/-- `guards T key r`: the row under the key changes only under a lock on `r`. -/
abbrev Guards (Name Key : Type) := Name → Text → Resource Name Key → Prop

variable (guards : Guards Name Key)

/-- What transactions that mind the guards leave as it is -/
structure Still (held : Held (Resource Name Key)) (db db' : Database Row) : Prop where
  behind : ∀ T key r m, guards T key r → (r, m) ∈ held → db'.row T key = db.row T key
  rooted : ∀ T key, Locks held (.row T key) .keyShare → (db'.row T key).isSome = true →
    (db.row T key).isSome = true

variable {guards} in
theorem Still.refl {held : Held (Resource Name Key)} {db : Database Row} : Still guards held db db :=
  ⟨fun _ _ _ _ _ _ => rfl, fun _ _ _ here => here⟩

variable {guards} in
theorem Still.among {held held' : Held (Resource Name Key)} {db db' : Database Row}
    (h : Still guards held' db db') (more : ∀ l ∈ held, l ∈ held') : Still guards held db db' :=
  ⟨fun T key r m guarded mem => h.behind T key r m guarded (more _ mem),
    fun T key mine => h.rooted T key (mine.among more)⟩

/-- Transactions that heed the locks and what is behind them, and keep to `extra`. -/
def wardens (needs : Needs Row Key) (extra : Restraint (Database Row)) :
    Peers (Database Row) (Resource Name Key) where
  allows held db db' := Others needs held db db' ∧ Still guards held db db' ∧ extra.allows db db'
  refl _ db := ⟨.refl, .refl, extra.refl db⟩
  trans first second := by
    obtain ⟨others, still, kept⟩ := first
    obtain ⟨others', still', kept'⟩ := second
    refine ⟨others.trans others', ⟨fun T key r m guarded mem => ?_, fun T key mine there => ?_⟩,
      extra.trans kept kept'⟩
    · exact (still'.behind T key r m guarded mem).trans (still.behind T key r m guarded mem)
    · exact still.rooted T key mine (still'.rooted T key mine there)
  more h := ⟨h.1.among fun _ => List.mem_cons_of_mem _, h.2.1.among fun _ => List.mem_cons_of_mem _,
    h.2.2⟩

def Change.inserts {ν : Type} : Change ν → Prop
  | .insert _ => True
  | .update _ | .delete => False

/-- A write that has the locks on what is in front of its row, and on a row that is new. -/
structure Minds (held : Held (Resource Name Key)) (w : Write Row) : Prop where
  behind : ∀ r, guards w.table w.key r → Locks held r .update
  claims : w.change.inserts → Locks held (.row w.table w.key) .update

def AllMind (held : Held (Resource Name Key)) (pending : List (Write Row)) : Prop :=
  ∀ w ∈ pending, Minds guards held w

variable {guards} {needs : Needs Row Key} {held held' : Held (Resource Name Key)}
  {db : Database Row} {pending more : List (Write Row)}

theorem allMind_nil : AllMind guards held ([] : List (Write Row)) := fun w mem => by cases mem

theorem AllMind.among (h : AllMind guards held pending) (wider : ∀ l ∈ held, l ∈ held') :
    AllMind guards held' pending := by
  intro w mem
  exact ⟨fun r guarded => ((h w mem).behind r guarded).among wider,
    fun new => ((h w mem).claims new).among wider⟩

theorem AllMind.concat {w : Write Row} (h : AllMind guards held pending) (minds : Minds guards held w) :
    AllMind guards held (pending ++ [w]) := by
  intro w' mem
  rcases List.mem_append.mp mem with old | new
  · exact h w' old
  · exact List.mem_singleton.mp new ▸ minds

variable [DecidableEq Name]

omit [DecidableEq Name] in
theorem heeding_wardens {extra : Restraint (Database Row)} :
    Heeding needs (wardens guards needs extra) := fun _ _ _ allowed => allowed.1

theorem onRow_none {w : Write Row} {T : Name} {key : Text}
    (there : (w.onRow T key none).isSome = true) :
    w.change.inserts ∧ w.table = T ∧ w.key = key := by
  obtain ⟨T', key', change⟩ := w
  by_cases same : T' = T
  · subst same
    rw [onRow_same] at there
    split at there
    · rename_i same
      cases change with
      | insert row => exact ⟨trivial, rfl, same⟩
      | update f | delete => cases there
    · cases there
  · rw [onRow_other same] at there
    cases there

/-- A row comes only from an insertion. -/
theorem inserted_of_rowAfter {T : Name} {key : Text} {row : Option (Row T)}
    (there : (rowAfter pending T key row).isSome = true) :
    row.isSome = true ∨ ∃ w ∈ pending, w.change.inserts ∧ w.table = T ∧ w.key = key := by
  induction pending generalizing row with
  | nil => exact .inl there
  | cons w ws ih =>
      rcases ih there with first | ⟨w', mem, new⟩
      · cases row with
        | some row => exact .inl rfl
        | none => exact .inr ⟨w, by simp, onRow_none first⟩
      · exact .inr ⟨w', by simp [mem], new⟩

/-- What is written over a row is written over what has come of it. -/
theorem rowAfter_extends {T : Name} {key : Text} {row row' : Option (Row T)}
    (extends_ : ∀ a, row = some a → row' = some a) (a : Row T)
    (here : rowAfter pending T key row = some a) : rowAfter pending T key row' = some a := by
  induction pending generalizing row row' with
  | nil => exact extends_ a here
  | cons w ws ih =>
      refine ih (fun b there => ?_) here
      obtain ⟨T', key', change⟩ := w
      dsimp only at there ⊢
      by_cases same : T' = T
      · subst same
        rw [onRow_same] at there ⊢
        split at there
        · rename_i same
          rw [if_pos same]
          cases change with
          | insert new => exact there
          | update f =>
              obtain ⟨c, before, rfl⟩ := Option.map_eq_some_iff.mp there
              rw [extends_ c before]
              rfl
          | delete => cases there
        · rename_i other
          rw [if_neg other]
          exact extends_ b there
      · rw [onRow_other same] at there ⊢
        exact extends_ b there

/-- A commit leaves alone what others have locks in front of. -/
theorem AllMind.still (h : AllMind guards held pending) (apart : Apart held held') :
    Still guards held' db (view Database.apply db pending) := by
  refine ⟨fun T key r m guarded theirs => ?_, fun T key theirs there => ?_⟩
  · rw [view_row]
    refine rowAfter_untouched (fun w mem same sameKey => ?_) _
    subst same sameKey
    have free := apart.not_locks ((h w mem).behind r guarded) (locks_of_mem theirs)
    rw [LockMode.update_conflicts] at free
    cases free
  · rw [view_row] at there
    rcases inserted_of_rowAfter there with old | ⟨w, mem, new, rfl, rfl⟩
    · exact old
    · have free := apart.not_locks ((h w mem).claims new) theirs
      rw [LockMode.update_conflicts] at free
      cases free

/-- What a row behind a lock is at the end, it was when it was read. -/
theorem Still.read {fin : Database Row} (h : Still guards held db fin) {T : Name} {key : Text}
    {r : Resource Name Key} {m : LockMode} (guarded : guards T key r) (mine : (r, m) ∈ held) :
    (view Database.apply db pending).row T key = (view Database.apply fin pending).row T key := by
  rw [view_row, view_row, h.behind T key r m guarded mine]

/-- A row that is there at the end, and was locked, was there when it was read. -/
theorem Still.present {fin : Database Row} (h : Still guards held db fin) {T : Name} {key : Text}
    (mine : Locks held (.row T key) .keyShare)
    (there : ((view Database.apply fin pending).row T key).isSome = true) :
    ((view Database.apply db pending).row T key).isSome = true := by
  rw [view_row] at there ⊢
  exact isSome_rowAfter_mono pending (h.rooted T key mine) there

/-- The step lemma for transactions that mind what is behind locks -/
theorem wardens_step [DecidableEq Key] {extras : Pid → Restraint (Database Row)}
    {posts : Pid → Post (Database Row) (Resource Name Key) (Write Row) (Failure ε) α}
    {s : State (Database Row) (Resource Name Key) (Write Row) Q (Failure ε) α}
    (h : Heading Database.apply (fun pid => wardens guards needs (extras pid)) posts s) (e : Event)
    (covered : ∀ pid a pending, posts pid (.ok a) s.db pending (s.held pid) →
      AllCovered needs (s.held pid) pending ∧ AllMind guards (s.held pid) pending)
    (kept : ∀ pid a pending q, e = .step pid → s.proc pid = .running (.done a) pending → q ≠ pid →
      (extras q).allows s.db (view Database.apply s.db pending)) :
    Heading Database.apply (fun pid => wardens guards needs (extras pid)) posts
      (s.step Database.apply e) := by
  refine h.step e fun pid a pending is_step at_ q t pending' other _ => ?_
  obtain ⟨locked, minding⟩ := covered pid a pending (h.post_of_done at_)
  have apart : Apart (s.held pid) (s.held q) :=
    fun r m m' mine theirs => h.compatible (Ne.symm other) mine theirs
  exact ⟨locked.lawful.others apart, minding.still apart, kept pid a pending q is_step at_ other⟩

end Relational
