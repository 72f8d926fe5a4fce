import PackageRegistry.Lib.Relational

/-! # What row locks leave to others

A transaction that commits has locked the rows that it changes, and what its rows have
come to need: the row behind a foreign key, the value in a unique index. So a lock
keeps others from changing a row, from removing it, and from adding rows that need it.
These are the peers for which the statements have their rules.
-/

namespace Relational

open Transactions

variable {Name : Type} {Row : Name → Type} {Key Q ε α β : Type}

/-! ## Locks -/

/-- A lock that keeps out at least what a lock of mode `m` keeps out. -/
def Locks {R : Type} (held : Held R) (r : R) (m : LockMode) : Prop :=
  ∃ m', (r, m') ∈ held ∧ ∀ n, m.conflicts n = true → m'.conflicts n = true

/-- No lock of one transaction conflicts with a lock of another. -/
def Apart {R : Type} (held held' : Held R) : Prop :=
  ∀ r m m', (r, m) ∈ held → (r, m') ∈ held' → m.conflicts m' = false

section

variable {R : Type} {held held' : Held R} {r : R} {m n : LockMode}

theorem locks_of_mem (mem : (r, m) ∈ held) : Locks held r m := ⟨m, mem, fun _ h => h⟩

theorem locks_of_update (mem : (r, .update) ∈ held) : Locks held r m :=
  ⟨.update, mem, fun n _ => LockMode.update_conflicts n⟩

theorem Locks.among (h : Locks held r m) (more : ∀ l ∈ held, l ∈ held') : Locks held' r m := by
  obtain ⟨m', mem, wider⟩ := h
  exact ⟨m', more _ mem, wider⟩

theorem Apart.not_locks (apart : Apart held held') (mine : Locks held r m)
    (other : Locks held' r n) : m.conflicts n = false := by
  obtain ⟨m', mem, wider⟩ := mine
  obtain ⟨n', mem', wider'⟩ := other
  refine Bool.eq_false_iff.mpr fun conflict => ?_
  have first := wider n conflict
  rw [LockMode.conflicts_comm] at first
  have second := wider' m' first
  rw [LockMode.conflicts_comm, apart r m' n' mem mem'] at second
  cases second

end

/-! ## What others may do -/

/-- What rows need: `needs T row r m` if a row of `T` comes to be like this only under a
    lock of mode `m` on `r`. -/
abbrev Needs (Row : Name → Type) (Key : Type) :=
  (T : Name) → Row T → Resource Name Key → LockMode → Prop

variable (needs : Needs Row Key)

structure Others (held : Held (Resource Name Key)) (db db' : Database Row) : Prop where
  row : ∀ T key, Locks held (.row T key) .noKeyUpdate → db'.row T key = db.row T key
  present : ∀ T key row, Locks held (.row T key) .keyShare → db.row T key = some row →
    ∃ row', db'.row T key = some row'
  needed : ∀ r m n, (r, m) ∈ held → m.conflicts n = true → ∀ T key row', db'.row T key = some row' →
    needs T row' r n → ∃ row, db.row T key = some row ∧ needs T row r n

/-- A commit from `db` to `db'` under the locks that its changes take. -/
structure Lawful (held : Held (Resource Name Key)) (db db' : Database Row) : Prop where
  changed : ∀ T key, db'.row T key ≠ db.row T key → Locks held (.row T key) .noKeyUpdate
  deleted : ∀ T key row, db.row T key = some row → db'.row T key = none →
    Locks held (.row T key) .update
  needed : ∀ T key row' r n, db'.row T key = some row' → needs T row' r n →
    (∃ row, db.row T key = some row ∧ needs T row r n) ∨ Locks held r n

variable {needs} {held held' : Held (Resource Name Key)} {db db' db'' : Database Row}

theorem Others.refl : Others needs held db db :=
  ⟨fun _ _ _ => rfl, fun _ _ row _ here => ⟨row, here⟩,
    fun _ _ _ _ _ _ _ row here needed => ⟨row, here, needed⟩⟩

theorem Others.trans (first : Others needs held db db') (second : Others needs held db' db'') :
    Others needs held db db'' := by
  refine ⟨fun T key mine => (second.row T key mine).trans (first.row T key mine),
    fun T key row mine here => ?_, fun r m n mem conflict T key row there needed => ?_⟩
  · obtain ⟨row', there⟩ := first.present T key row mine here
    exact second.present T key row' mine there
  · obtain ⟨row', between, needed'⟩ := second.needed r m n mem conflict T key row there needed
    exact first.needed r m n mem conflict T key row' between needed'

theorem Others.among (h : Others needs held' db db') (more : ∀ l ∈ held, l ∈ held') :
    Others needs held db db' :=
  ⟨fun T key mine => h.row T key (mine.among more),
    fun T key row mine => h.present T key row (mine.among more),
    fun r m n mem => h.needed r m n (more _ mem)⟩

/-- A lawful commit stays within what the locks of another transaction leave to it. -/
theorem Lawful.others (h : Lawful needs held db db') (apart : Apart held held') :
    Others needs held' db db' := by
  refine ⟨fun T key theirs => ?_, fun T key row theirs here => ?_,
    fun r m n theirs conflict T key row' there needed => ?_⟩
  · by_contra changed
    cases apart.not_locks (h.changed T key changed) theirs
  · cases there : db'.row T key with
    | some row' => exact ⟨row', rfl⟩
    | none => cases apart.not_locks (h.deleted T key row here there) theirs
  · rcases h.needed T key row' r n there needed with old | mine
    · exact old
    · have free := apart.not_locks mine (locks_of_mem theirs)
      rw [LockMode.conflicts_comm, conflict] at free
      cases free

/-- What transactions keep to beyond the locks -/
structure Restraint (Db : Type) where
  allows : Db → Db → Prop
  refl : ∀ db, allows db db
  trans : ∀ {a b c}, allows a b → allows b c → allows a c

def unrestrained {Db : Type} : Restraint Db where
  allows _ _ := True
  refl _ := trivial
  trans _ _ := trivial

/-- Transactions that heed the locks, and keep to `extra`. -/
def peers (needs : Needs Row Key) (extra : Restraint (Database Row)) :
    Peers (Database Row) (Resource Name Key) where
  allows held db db' := Others needs held db db' ∧ extra.allows db db'
  refl _ db := ⟨.refl, extra.refl db⟩
  trans first second := ⟨first.1.trans second.1, extra.trans first.2 second.2⟩
  more h := ⟨h.1.among fun _ => List.mem_cons_of_mem _, h.2⟩

/-! ## Writes and their locks -/

/-- A write has the locks that it needs. -/
def Covered (needs : Needs Row Key) (held : Held (Resource Name Key)) : Write Row → Prop
  | ⟨T, key, .insert row⟩ => Locks held (.row T key) .noKeyUpdate ∧
      ∀ r m, needs T row r m → Locks held r m
  | ⟨T, key, .update f⟩ => Locks held (.row T key) .noKeyUpdate ∧
      ∀ row r m, needs T (f row) r m → needs T row r m ∨ Locks held r m
  | ⟨T, key, .delete⟩ => Locks held (.row T key) .update

def AllCovered (needs : Needs Row Key) (held : Held (Resource Name Key))
    (pending : List (Write Row)) : Prop :=
  ∀ w ∈ pending, Covered needs held w

theorem covered_insert {T : Name} {key : Text} {row : Row T}
    (mine : (.row T key, .update) ∈ held) (needed : ∀ r m, needs T row r m → Locks held r m) :
    Covered needs held ⟨T, key, .insert row⟩ :=
  ⟨locks_of_update mine, needed⟩

theorem covered_update {T : Name} {key : Text} {f : Row T → Row T}
    (mine : Locks held (.row T key) .noKeyUpdate)
    (nothing_new : ∀ row r m, needs T (f row) r m → needs T row r m) :
    Covered needs held ⟨T, key, .update f⟩ :=
  ⟨mine, fun row r m needed => .inl (nothing_new row r m needed)⟩

theorem Covered.among {w : Write Row} (h : Covered needs held w) (more : ∀ l ∈ held, l ∈ held') :
    Covered needs held' w := by
  obtain ⟨T, key, change⟩ := w
  cases change with
  | insert row => exact ⟨h.1.among more, fun r m needed => (h.2 r m needed).among more⟩
  | update f => exact ⟨h.1.among more, fun row r m needed => (h.2 row r m needed).imp_right (·.among more)⟩
  | delete => exact Locks.among h more

theorem AllCovered.among {pending : List (Write Row)} (h : AllCovered needs held pending)
    (more : ∀ l ∈ held, l ∈ held') : AllCovered needs held' pending :=
  fun w mem => (h w mem).among more

theorem allCovered_nil : AllCovered needs held [] := fun w mem => by cases mem

theorem AllCovered.append {pending more : List (Write Row)} (h : AllCovered needs held pending)
    (h' : AllCovered needs held more) : AllCovered needs held (pending ++ more) :=
  fun w mem => (List.mem_append.mp mem).elim (h w) (h' w)

theorem AllCovered.concat {pending : List (Write Row)} {w : Write Row}
    (h : AllCovered needs held pending) (covered : Covered needs held w) :
    AllCovered needs held (pending ++ [w]) :=
  h.append fun _ mem => List.mem_singleton.mp mem ▸ covered

section

variable [DecidableEq Name]

omit [DecidableEq Name] in
theorem Lawful.refl : Lawful needs held db db := by
  refine ⟨fun T key changed => absurd rfl changed, fun T key row here gone => ?_,
    fun T key row r n there needed => .inl ⟨row, there, needed⟩⟩
  rw [here] at gone
  cases gone

omit [DecidableEq Name] in
theorem Lawful.trans (first : Lawful needs held db db') (second : Lawful needs held db' db'') :
    Lawful needs held db db'' := by
  refine ⟨fun T key changed => ?_, fun T key row here gone => ?_,
    fun T key row r n there needed => ?_⟩
  · by_cases same : db'.row T key = db.row T key
    · exact second.changed T key fun same' => changed (same'.trans same)
    · exact first.changed T key same
  · cases between : db'.row T key with
    | some row' => exact second.deleted T key row' between gone
    | none => exact first.deleted T key row here between
  · rcases second.needed T key row r n there needed with ⟨row', between, needed'⟩ | mine
    · exact first.needed T key row' r n between needed'
    · exact .inr mine

/-- A write is lawful when the locks are there for what it makes of its row. -/
theorem lawful_apply {w : Write Row} (mine : Locks held (.row w.table w.key) .noKeyUpdate)
    (deleted : ∀ row, w.change.on (some row) = none → Locks held (.row w.table w.key) .update)
    (needed : ∀ row' r m, w.change.on (db.row w.table w.key) = some row' → needs w.table row' r m →
      (∃ row, db.row w.table w.key = some row ∧ needs w.table row r m) ∨ Locks held r m) :
    Lawful needs held db (db.apply w) := by
  obtain ⟨T', key', change⟩ := w
  have here : (db.apply ⟨T', key', change⟩).row T' key' = change.on (db.row T' key') := by
    rw [apply_row, onRow_same, if_pos rfl]
  have cases_of : ∀ T key, (T = T' ∧ key = key') ∨
      (db.apply ⟨T', key', change⟩).row T key = db.row T key := by
    intro T key
    rw [apply_row]
    by_cases same : T' = T
    · subst same
      by_cases sameKey : key' = key
      · exact .inl ⟨rfl, sameKey.symm⟩
      · exact .inr (by rw [onRow_same, if_neg sameKey])
    · exact .inr (onRow_other same ..)
  refine ⟨fun T key changed => ?_, fun T key row before gone => ?_,
    fun T key row r n there isNeeded => ?_⟩
  · rcases cases_of T key with ⟨rfl, rfl⟩ | same
    · exact mine
    · exact absurd same changed
  · rcases cases_of T key with ⟨rfl, rfl⟩ | same
    · rw [before] at here
      exact deleted row (here.symm.trans gone)
    · rw [same, before] at gone
      cases gone
  · rcases cases_of T key with ⟨rfl, rfl⟩ | same
    · exact needed row r n (here.symm.trans there) isNeeded
    · exact .inl ⟨row, same.symm.trans there, isNeeded⟩

/-- An UPDATE of a row that is known -/
theorem lawful_update {T : Name} {key : Text} {row : Row T} {f : Row T → Row T}
    (here : db.row T key = some row) (mine : Locks held (.row T key) .noKeyUpdate)
    (needed : ∀ r m, needs T (f row) r m → needs T row r m ∨ Locks held r m) :
    Lawful needs held db (db.apply ⟨T, key, .update f⟩) := by
  refine lawful_apply mine (fun _ gone => by cases gone) fun row' r m there isNeeded => ?_
  obtain rfl : f row = row' := by simpa [Change.on, here] using there
  exact (needed r m isNeeded).imp_left fun needed => ⟨row, here, needed⟩

theorem Covered.lawful {w : Write Row} (h : Covered needs held w) :
    Lawful needs held db (db.apply w) := by
  obtain ⟨T, key, change⟩ := w
  cases change with
  | insert new =>
      refine lawful_apply h.1 (fun _ gone => by cases gone) fun row' r m there needed => ?_
      obtain rfl := Option.some.inj there
      exact .inr (h.2 r m needed)
  | update f =>
      refine lawful_apply h.1 (fun _ gone => by cases gone) fun row' r m there needed => ?_
      obtain ⟨row, here, rfl⟩ := Option.map_eq_some_iff.mp there
      exact (h.2 row r m needed).imp_left fun needed => ⟨row, here, needed⟩
  | delete =>
      refine lawful_apply ?_ (fun _ _ => h) fun row' r m there _ => by cases there
      obtain ⟨m, mem, wider⟩ := h
      exact ⟨m, mem, fun n _ => wider n (LockMode.update_conflicts n)⟩

/-- Writes under their locks make a lawful commit. -/
theorem AllCovered.lawful {pending : List (Write Row)} (h : AllCovered needs held pending) :
    Lawful needs held db (view Database.apply db pending) := by
  induction pending generalizing db with
  | nil => exact .refl
  | cons w ws ih =>
      have first : Lawful needs held db (db.apply w) := (h w (by simp)).lawful
      exact first.trans (ih fun w' mem => h w' (by simp [mem]))

end

end Relational
