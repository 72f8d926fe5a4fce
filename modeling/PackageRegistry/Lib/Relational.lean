import PackageRegistry.Lib.Hindsight
import PackageRegistry.Lib.Table
import PackageRegistry.Lib.Text

/-! # A relational database

Tables of rows with a primary key, changed one row at a time. The statements take the
locks that PostgreSQL takes for them: a row is locked before it is changed, a foreign
key locks the row that it refers to, and a unique index is locked at the value that a
row takes in it.
-/

namespace Relational

open Transactions

variable {Name : Type} {Row : Name → Type} {Key Q ε α : Type}

/-- The rows of every table, by primary key. -/
structure Database (Row : Name → Type) where
  table : (T : Name) → Table Text (Row T)

def Database.row (db : Database Row) (T : Name) (key : Text) : Option (Row T) := (db.table T)[key]?

/-- What is done to one row. -/
inductive Change (ν : Type) where
  | insert (row : ν)
  | update (f : ν → ν)
  | delete

def Change.on {ν : Type} : Change ν → Option ν → Option ν
  | .insert row, _ => some row
  | .update f, old => old.map f
  | .delete, _ => none

structure Write (Row : Name → Type) where
  table : Name
  key : Text
  change : Change (Row table)

def Database.apply [DecidableEq Name] (db : Database Row) (w : Write Row) : Database Row where
  table := Function.update db.table w.table ((db.table w.table).alter w.key w.change.on)

/-- What can be locked: a row, or a value of a unique index. -/
inductive Resource (Name Key : Type) where
  | row (table : Name) (key : Text)
  | index (value : Key)
  deriving DecidableEq

/-- What leaves a transaction. -/
inductive Failure (ε : Type) where
  | error (e : ε)
  | integrity
  /-- An UPDATE of one row has found none. -/
  | stale
  deriving DecidableEq

abbrev Statement (Row : Name → Type) (Key Q ε α : Type) :=
  Tx (Database Row) (Resource Name Key) (Write Row) Q (Failure ε) α

/-! ## Statements -/

/-- The first row that a SELECT finds, with its key. -/
def Database.first (db : Database Row) (T : Name) (p : Text → Row T → Bool) :
    Option (Text × Row T) :=
  (db.table T).toList.find? fun row => p row.1 row.2

def select (q : Q) (T : Name) (p : Text → Row T → Bool) :
    Statement Row Key Q ε (Option (Text × Row T)) :=
  Tx.query q fun db => db.first T p

/-- `SELECT ... FOR UPDATE`: the row is locked, and then read and checked again. -/
def selectForUpdate (q : Q) (T : Name) (p : Text → Row T → Bool) :
    Statement Row Key Q ε (Option (Text × Row T)) := do
  match ← Tx.query q fun db => db.first T p with
  | none => pure none
  | some (key, _) => do
      Tx.acquire q (.row T key) .update
      Tx.query q fun db => ((db.row T key).filter (p key)).map (Prod.mk key)

/-- The UPDATE of one row that has been read before. -/
def updateRow (q : Q) (T : Name) (key : Text) (f : Row T → Row T) : Statement Row Key Q ε Unit := do
  Tx.acquire q (.row T key) .noKeyUpdate
  if ← Tx.query q fun db => (db.row T key).isSome then Tx.put q ⟨T, key, .update f⟩
  else .raise .stale

/-- The DELETE of one row that has been read before; it may be gone already. -/
def deleteRow (q : Q) (T : Name) (key : Text) : Statement Row Key Q ε Unit := do
  Tx.acquire q (.row T key) .update
  if ← Tx.query q fun db => (db.row T key).isSome then Tx.put q ⟨T, key, .delete⟩
  else pure ()

def insertRow (q : Q) (T : Name) (key : Text) (row : Row T) : Statement Row Key Q ε Unit := do
  let fresh ← Tx.insertNew q (.row T key) (fun db => (db.row T key).isSome) ⟨T, key, .insert row⟩
  if fresh then pure () else .raise .integrity

/-- The foreign key check of a row that refers to another one. -/
def refer (q : Q) (T : Name) (key : Text) : Statement Row Key Q ε Unit := do
  Tx.acquire q (.row T key) .keyShare
  if ← Tx.query q fun db => (db.row T key).isSome then pure () else .raise .integrity

/-- The entry of a row in a unique index. -/
def enter (q : Q) (value : Key) (taken : Database Row → Bool) : Statement Row Key Q ε Unit := do
  Tx.acquire q (.index value) .update
  if ← Tx.query q taken then .raise .integrity else pure ()

/-- The rows of a set-based statement: each is locked, and changed if it still matches. -/
def changeRows (q : Q) (T : Name) (mode : LockMode) (p : Text → Row T → Bool) (change : Change (Row T)) :
    List Text → Statement Row Key Q ε Unit
  | [] => pure ()
  | key :: rest => do
      Tx.acquire q (.row T key) mode
      if ← Tx.query q fun db => (db.row T key).any (p key) then
        Tx.put q ⟨T, key, change⟩
        changeRows q T mode p change rest
      else changeRows q T mode p change rest

/-- A set-based UPDATE or DELETE: a snapshot of the matching rows, and then one after
    the other. -/
def changeWhere (q : Q) (T : Name) (mode : LockMode) (p : Text → Row T → Bool)
    (change : Change (Row T)) : Statement Row Key Q ε Unit := do
  let keys ← Tx.query q fun db => Table.keysWhere (db.table T) p
  changeRows q T mode p change keys

def updateWhere (q : Q) (T : Name) (p : Text → Row T → Bool) (f : Row T → Row T) :
    Statement Row Key Q ε Unit :=
  changeWhere q T .noKeyUpdate p (.update f)

def deleteWhere (q : Q) (T : Name) (p : Text → Row T → Bool) : Statement Row Key Q ε Unit :=
  changeWhere q T .update p .delete

/-- The rows of a locking SELECT, in its order: each is locked, and counts if it still
    matches. -/
def lockRows (q : Q) (T : Name) (p : Text → Row T → Bool) :
    List Text → Statement Row Key Q ε (List Text)
  | [] => pure []
  | key :: rest => do
      Tx.acquire q (.row T key) .update
      if ← Tx.query q fun db => (db.row T key).any (p key) then do
        let others ← lockRows q T p rest
        pure (key :: others)
      else lockRows q T p rest

/-- `SELECT ... ORDER BY id FOR UPDATE` -/
def lockWhere (q : Q) (T : Name) (p : Text → Row T → Bool) : Statement Row Key Q ε (List Text) := do
  let keys ← Tx.query q fun db => Table.keysWhere (db.table T) p
  lockRows q T p keys

/-! ## One row at a time -/

section

variable [DecidableEq Name]

/-- What a write makes of the row under a key. -/
def Write.onRow (w : Write Row) (T : Name) (key : Text) (row : Option (Row T)) : Option (Row T) :=
  if same : w.table = T then
    if w.key = key then (same ▸ w.change).on row else row
  else row

@[simp] theorem onRow_same (T : Name) (key key' : Text) (change : Change (Row T))
    (row : Option (Row T)) :
    (Write.mk T key change).onRow T key' row = if key = key' then change.on row else row := by
  simp [Write.onRow]

@[simp] theorem onRow_other {T T' : Name} (other : T ≠ T') (key key' : Text) (change : Change (Row T))
    (row : Option (Row T')) : (Write.mk T key change).onRow T' key' row = row := by
  simp [Write.onRow, other]

/-- What pending writes make of the row under a key. -/
def rowAfter (pending : List (Write Row)) (T : Name) (key : Text) (row : Option (Row T)) :
    Option (Row T) :=
  pending.foldl (fun row w => w.onRow T key row) row

@[simp] theorem rowAfter_nil (T : Name) (key : Text) (row : Option (Row T)) :
    rowAfter [] T key row = row := rfl

@[simp] theorem rowAfter_cons (w : Write Row) (ws : List (Write Row)) (T : Name) (key : Text)
    (row : Option (Row T)) :
    rowAfter (w :: ws) T key row = rowAfter ws T key (w.onRow T key row) := rfl

@[simp] theorem rowAfter_append (ws ws' : List (Write Row)) (T : Name) (key : Text)
    (row : Option (Row T)) :
    rowAfter (ws ++ ws') T key row = rowAfter ws' T key (rowAfter ws T key row) := by
  simp [rowAfter]

theorem apply_row (db : Database Row) (w : Write Row) (T : Name) (key : Text) :
    (db.apply w).row T key = w.onRow T key (db.row T key) := by
  obtain ⟨T', key', change⟩ := w
  by_cases same : T' = T
  · subst same
    simp only [Database.row, Database.apply, Function.update_self, onRow_same]
    rw [Std.ExtTreeMap.getElem?_alter]
    simp only [Std.LawfulEqCmp.compare_eq_iff_eq]
    split
    · rename_i here
      rw [here]
    · rfl
  · rw [onRow_other same]
    simp only [Database.row, Database.apply, Function.update_of_ne (Ne.symm same)]

theorem view_row (db : Database Row) (pending : List (Write Row)) (T : Name) (key : Text) :
    (view Database.apply db pending).row T key = rowAfter pending T key (db.row T key) := by
  induction pending generalizing db with
  | nil => rfl
  | cons w ws ih => exact (ih (db.apply w)).trans (by rw [apply_row]; rfl)

theorem rowAfter_untouched {pending : List (Write Row)} {T : Name} {key : Text}
    (away : ∀ w ∈ pending, w.table = T → w.key ≠ key) (row : Option (Row T)) :
    rowAfter pending T key row = row := by
  induction pending generalizing row with
  | nil => rfl
  | cons w ws ih =>
      rw [rowAfter_cons, ih fun w' mem => away w' (by simp [mem])]
      obtain ⟨T', key', change⟩ := w
      by_cases same : T' = T
      · subst same
        have other : key' ≠ key := away ⟨T', key', change⟩ (by simp) rfl
        rw [onRow_same, if_neg other]
      · exact onRow_other same ..

end

theorem first_some {db : Database Row} {T : Name} {p : Text → Row T → Bool} {key : Text} {row : Row T}
    (found : db.first T p = some (key, row)) : db.row T key = some row ∧ p key row = true := by
  have matched := List.find?_some (p := fun row : Text × Row T => p row.1 row.2) found
  exact ⟨(Table.mem_toList _).mp (List.mem_of_find?_eq_some found), matched⟩

theorem first_none {db : Database Row} {T : Name} {p : Text → Row T → Bool}
    (absent : db.first T p = none) (key : Text) (row : Row T) (here : db.row T key = some row) :
    p key row = false := by
  have none_found := List.find?_eq_none.mp absent (key, row) ((Table.mem_toList _).mpr here)
  exact Bool.eq_false_iff.mpr none_found

end Relational
