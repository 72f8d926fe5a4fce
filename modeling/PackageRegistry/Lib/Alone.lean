import PackageRegistry.Lib.Relational

/-! # Statements of a transaction that runs alone

What each statement answers, and the database that it leaves, when nothing comes between.
-/

namespace Relational

open Transactions

section

variable {Db R W Q ε α β : Type} {apply : Db → W → Db} {t : Tx Db R W Q ε α}
  {f : α → Tx Db R W Q ε β} {db after : Db}

theorem exec_then {a : α} (h : exec apply t db = .ok (a, after)) :
    exec apply (t.bind f) db = exec apply (f a) after := by
  rw [exec_bind, h]

theorem exec_raised {e : ε} (h : exec apply t db = .error e) :
    exec apply (t.bind f) db = .error e := by
  rw [exec_bind, h]

end

variable {Name : Type} [DecidableEq Name] {Row : Name → Type} {Key Q ε α : Type}
  {db : Database Row} {q : Q} {T : Name} {key : Text}

theorem exec_selectForUpdate (p : Text → Row T → Bool) :
    exec Database.apply (selectForUpdate q T p : Statement Row Key Q ε _) db =
      .ok (db.first T p, db) := by
  unfold selectForUpdate
  rw [Tx.bind_eq, exec_then rfl]
  dsimp only
  split
  · rename_i absent
    rw [absent]
    rfl
  · rename_i key row found
    obtain ⟨here, matches_⟩ := first_some found
    have again : (db.row T key).filter (p key) = some row := by
      rw [here, Option.filter_some, if_pos matches_]
    simp only [Tx.bind_eq, Tx.acquire, Tx.bind, exec, Tx.query, again, found]
    rfl

theorem exec_updateRow {row : Row T} (here : db.row T key = some row) (g : Row T → Row T) :
    exec Database.apply (updateRow q T key g : Statement Row Key Q ε _) db =
      .ok ((), db.apply ⟨T, key, .update g⟩) := by
  have present : (db.row T key).isSome = true := by rw [here]; rfl
  simp only [updateRow, Tx.bind_eq, Tx.acquire, Tx.query, Tx.bind, exec, present, if_true, Tx.put]

theorem exec_insertRow (absent : db.row T key = none) (row : Row T) :
    exec Database.apply (insertRow q T key row : Statement Row Key Q ε _) db =
      .ok ((), db.apply ⟨T, key, .insert row⟩) := by
  have free : (db.row T key).isSome = false := by rw [absent]; rfl
  simp only [insertRow, Tx.bind_eq, Tx.insertNew, Tx.bind, exec, free]
  rfl

theorem exec_refer {row : Row T} (here : db.row T key = some row) :
    exec Database.apply (refer q T key : Statement Row Key Q ε _) db = .ok ((), db) := by
  have present : (db.row T key).isSome = true := by rw [here]; rfl
  simp only [refer, Tx.bind_eq, Tx.acquire, Tx.query, Tx.bind, exec, present, if_true]
  rfl

end Relational
