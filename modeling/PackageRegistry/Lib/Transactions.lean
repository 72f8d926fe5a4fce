import Mathlib.Logic.Function.Basic
import PackageRegistry.Lib.Runs

/-! # Transactions under READ COMMITTED

A transaction is a program of statements. Every statement that reads sees what is
committed at that moment together with the transaction's own writes; its writes
become visible to others when it commits, and its locks are held until it ends.
Statements of different transactions interleave freely, as far as locks allow.
-/

namespace Transactions

/-- The row lock modes of PostgreSQL, weakest first. -/
inductive LockMode where
  | keyShare
  | share
  | noKeyUpdate
  | update
  deriving DecidableEq

def LockMode.conflicts : LockMode → LockMode → Bool
  | .keyShare, .update | .update, .keyShare => true
  | .keyShare, _ | _, .keyShare => false
  | .share, .share => false
  | _, _ => true

theorem LockMode.conflicts_comm (m n : LockMode) : m.conflicts n = n.conflicts m := by
  cases m <;> cases n <;> rfl

@[simp] theorem LockMode.update_conflicts (m : LockMode) : LockMode.update.conflicts m = true := by
  cases m <;> rfl

/-- A transaction over a database `Db` with lockable resources `R`, writes `W`,
    statements named by `Q` and exceptions `ε`. -/
inductive Tx (Db R W Q ε α : Type) where
  | done (a : α)
  /-- An exception leaves the transaction, which rolls back. -/
  | raise (e : ε)
  /-- One statement that reads, with its own snapshot. -/
  | read (q : Q) (k : Db → Tx Db R W Q ε α)
  /-- Take a lock, or wait for it. -/
  | lock (q : Q) (r : R) (m : LockMode) (k : Tx Db R W Q ε α)
  /-- Add a row with a unique key, or find the key taken; another transaction's
      uncommitted row with this key is waited for. -/
  | insert (q : Q) (r : R) (taken : Db → Bool) (w : W) (k : Bool → Tx Db R W Q ε α)
  | write (q : Q) (w : W) (k : Tx Db R W Q ε α)

namespace Tx

variable {Db R W Q ε α β : Type}

def bind : Tx Db R W Q ε α → (α → Tx Db R W Q ε β) → Tx Db R W Q ε β
  | .done a, f => f a
  | .raise e, _ => .raise e
  | .read q k, f => .read q fun db => (k db).bind f
  | .lock q r m k, f => .lock q r m (k.bind f)
  | .insert q r taken w k, f => .insert q r taken w fun fresh => (k fresh).bind f
  | .write q w k, f => .write q w (k.bind f)

instance : Monad (Tx Db R W Q ε) where
  pure := .done
  bind := bind

@[simp] theorem pure_eq (a : α) : (pure a : Tx Db R W Q ε α) = .done a := rfl

@[simp] theorem bind_eq (t : Tx Db R W Q ε α) (f : α → Tx Db R W Q ε β) : t >>= f = t.bind f := rfl

theorem bind_assoc {γ : Type} (t : Tx Db R W Q ε α) (f : α → Tx Db R W Q ε β)
    (g : β → Tx Db R W Q ε γ) : (t.bind f).bind g = t.bind fun a => (f a).bind g := by
  induction t with
  | done | raise => rfl
  | read q k ih | insert q r taken w k ih =>
      simp only [bind]
      congr 1
      exact funext ih
  | lock q r m k ih | write q w k ih => exact congrArg _ ih

theorem bind_done (t : Tx Db R W Q ε α) : t.bind .done = t := by
  induction t with
  | done | raise => rfl
  | read q k ih | insert q r taken w k ih =>
      simp only [bind]
      congr 1
      exact funext ih
  | lock q r m k ih | write q w k ih => exact congrArg _ ih

/-- What is raised is turned into another exception, as by `except`. -/
def mapError {ε' : Type} (f : ε → ε') : Tx Db R W Q ε α → Tx Db R W Q ε' α
  | .done a => .done a
  | .raise e => .raise (f e)
  | .read q k => .read q fun db => (k db).mapError f
  | .lock q r m k => .lock q r m (k.mapError f)
  | .insert q r taken w k => .insert q r taken w fun fresh => (k fresh).mapError f
  | .write q w k => .write q w (k.mapError f)

/-- The statement that comes next. -/
def next : Tx Db R W Q ε α → Option Q
  | .done _ | .raise _ => none
  | .read q _ | .lock q _ _ _ | .insert q _ _ _ _ | .write q _ _ => some q

/-! Single statements -/

def query (q : Q) (f : Db → α) : Tx Db R W Q ε α :=
  .read q fun db => .done (f db)

def acquire (q : Q) (r : R) (m : LockMode) : Tx Db R W Q ε Unit :=
  .lock q r m (.done ())

def put (q : Q) (w : W) : Tx Db R W Q ε Unit :=
  .write q w (.done ())

/-- `INSERT ... ON CONFLICT DO NOTHING`; the answer is whether the row is new. -/
def insertNew (q : Q) (r : R) (taken : Db → Bool) (w : W) : Tx Db R W Q ε Bool :=
  .insert q r taken w .done

end Tx

/-! ## One transaction alone -/

section

variable {Db R W Q ε α β : Type} (apply : Db → W → Db)

/-- The database with uncommitted writes on top. -/
def view (db : Db) (pending : List W) : Db :=
  pending.foldl apply db

/-- A transaction that nothing interrupts: its result and the database it leaves. -/
def exec : Tx Db R W Q ε α → Db → Except ε (α × Db)
  | .done a, db => .ok (a, db)
  | .raise e, _ => .error e
  | .read _ k, db => exec (k db) db
  | .lock _ _ _ k, db => exec k db
  | .insert _ _ taken w k, db =>
      if taken db then exec (k false) db else exec (k true) (apply db w)
  | .write _ w k, db => exec k (apply db w)

variable {apply}

@[simp] theorem view_nil (db : Db) : view apply db [] = db := rfl

@[simp] theorem view_concat (db : Db) (pending : List W) (w : W) :
    view apply db (pending ++ [w]) = apply (view apply db pending) w := by
  simp [view]

theorem view_append (db : Db) (ws ws' : List W) :
    view apply db (ws ++ ws') = view apply (view apply db ws) ws' :=
  List.foldl_append

theorem exec_bind (t : Tx Db R W Q ε α) (f : α → Tx Db R W Q ε β) (db : Db) :
    exec apply (t.bind f) db = match exec apply t db with
      | .ok (a, db') => exec apply (f a) db'
      | .error e => .error e := by
  induction t generalizing db with
  | done | raise => rfl
  | read q k ih => exact ih db db
  | lock q r m k ih => exact ih db
  | insert q r taken w k ih =>
      simp only [Tx.bind, exec]
      split
      · exact ih false db
      · exact ih true (apply db w)
  | write q w k ih => exact ih (apply db w)

end

/-! ## Many transactions -/

abbrev Pid := Nat

/-- Where a call stands. -/
inductive Proc (Db R W Q ε α : Type) where
  | running (t : Tx Db R W Q ε α) (pending : List W)
  | committed (a : α)
  | raised (e : ε)
  /-- Stopped by a crash, a lost connection or a deadlock. -/
  | aborted

/-- What the caller of an ended call gets -/
def Proc.answer {Db R W Q ε α : Type} : Proc Db R W Q ε α → Option (Except ε α)
  | .committed a => some (.ok a)
  | .raised e => some (.error e)
  | .running .. | .aborted => none

theorem Proc.committed_of_answer {Db R W Q ε α : Type} {p : Proc Db R W Q ε α} {a : α}
    (h : p.answer = some (.ok a)) : p = .committed a := by
  cases p with
  | committed b => cases h; rfl
  | running | raised | aborted => cases h

theorem Proc.raised_of_answer {Db R W Q ε α : Type} {p : Proc Db R W Q ε α} {e : ε}
    (h : p.answer = some (.error e)) : p = .raised e := by
  cases p with
  | raised e' => cases h; rfl
  | running | committed | aborted => cases h

structure State (Db R W Q ε α : Type) where
  db : Db
  locks : List (Pid × R × LockMode)
  proc : Pid → Proc Db R W Q ε α

inductive Event where
  | step (pid : Pid)
  | abort (pid : Pid)
  deriving DecidableEq

section

variable {Db R W Q ε α : Type}

/-- The locks of one transaction. -/
def State.held (s : State Db R W Q ε α) (pid : Pid) : List (R × LockMode) :=
  (s.locks.filter fun l => l.1 == pid).map (·.2)

def release (locks : List (Pid × R × LockMode)) (pid : Pid) : List (Pid × R × LockMode) :=
  locks.filter fun l => l.1 != pid

/-- No other transaction is in the way of a lock. -/
def granted [DecidableEq R] (locks : List (Pid × R × LockMode)) (pid : Pid) (r : R)
    (m : LockMode) : Bool :=
  locks.all fun l => l.1 == pid || l.2.1 != r || !l.2.2.conflicts m

/-- The end of a transaction: its outcome, and no more locks. -/
def State.finish (s : State Db R W Q ε α) (pid : Pid) (outcome : Proc Db R W Q ε α) :
    State Db R W Q ε α :=
  { s with locks := release s.locks pid, proc := Function.update s.proc pid outcome }

/-- A transaction goes on, perhaps with a new lock. -/
def State.goOn (s : State Db R W Q ε α) (pid : Pid) (t : Tx Db R W Q ε α) (pending : List W)
    (new : List (R × LockMode)) : State Db R W Q ε α :=
  { s with
      locks := new.map (Prod.mk pid) ++ s.locks
      proc := Function.update s.proc pid (.running t pending) }

def State.step [DecidableEq R] (apply : Db → W → Db) (s : State Db R W Q ε α) :
    Event → State Db R W Q ε α
  | .step pid =>
      match s.proc pid with
      | .running t pending =>
          match t with
          | .done a =>
              { s.finish pid (.committed a) with db := view apply s.db pending }
          | .raise e => s.finish pid (.raised e)
          | .read _ k => s.goOn pid (k (view apply s.db pending)) pending []
          | .lock _ r m k =>
              if granted s.locks pid r m then s.goOn pid k pending [(r, m)] else s
          | .insert _ r taken w k =>
              if taken (view apply s.db pending) then s.goOn pid (k false) pending []
              else if granted s.locks pid r .update then
                s.goOn pid (k true) (pending ++ [w]) [(r, .update)]
              else s
          | .write _ w k => s.goOn pid k (pending ++ [w]) []
      | _ => s
  | .abort pid =>
      match s.proc pid with
      | .running _ _ => s.finish pid .aborted
      | _ => s

theorem finish_proc (s : State Db R W Q ε α) (pid q : Pid) (outcome : Proc Db R W Q ε α) :
    (s.finish pid outcome).proc q = if q = pid then outcome else s.proc q := by
  by_cases own : q = pid
  · simp [State.finish, own]
  · simp [State.finish, own]

theorem goOn_committed (s : State Db R W Q ε α) (pid : Pid) {t t' : Tx Db R W Q ε α}
    {pending pending' : List W} (new : List (R × LockMode)) (at_ : s.proc pid = .running t pending)
    (q : Pid) (a : α) :
    (s.goOn pid t' pending' new).proc q = .committed a ↔ s.proc q = .committed a := by
  by_cases own : q = pid
  · subst own
    simp [State.goOn, at_]
  · simp [State.goOn, Function.update_of_ne own]

/-- What a step can do to the database and to the calls that have committed: one call
    commits, or nothing changes. -/
theorem State.step_cases [DecidableEq R] (apply : Db → W → Db) (s : State Db R W Q ε α)
    (e : Event) :
    (∃ pid a pending, e = .step pid ∧ s.proc pid = .running (.done a) pending ∧
      s.step apply e = { s.finish pid (.committed a) with db := view apply s.db pending }) ∨
    (s.step apply e).db = s.db ∧
      ∀ q a, (s.step apply e).proc q = .committed a ↔ s.proc q = .committed a := by
  have finished : ∀ {pid t pending outcome}, s.proc pid = .running t pending →
      (∀ a, outcome ≠ .committed a) → ∀ q a,
        (s.finish pid outcome).proc q = .committed a ↔ s.proc q = .committed a := by
    intro pid t pending outcome at_ ended q a
    rw [finish_proc]
    split
    · rename_i own
      simp [own, at_, ended a]
    · rfl
  cases e with
  | abort pid =>
      refine .inr ?_
      simp only [State.step]
      split
      · exact ⟨rfl, finished ‹_› nofun⟩
      · exact ⟨rfl, fun _ _ => Iff.rfl⟩
  | step pid =>
      cases at_ : s.proc pid with
      | committed | raised | aborted =>
          exact .inr (by simp [State.step, at_])
      | running t pending =>
          cases t with
          | done a =>
              refine .inl ⟨pid, a, pending, rfl, at_, ?_⟩
              simp only [State.step, at_]
          | raise e =>
              refine .inr ?_
              simp only [State.step, at_]
              exact ⟨rfl, finished at_ nofun⟩
          | read | write =>
              refine .inr ?_
              simp only [State.step, at_]
              exact ⟨rfl, goOn_committed s pid [] at_⟩
          | lock q r m k =>
              refine .inr ?_
              simp only [State.step, at_]
              split
              · exact ⟨rfl, goOn_committed s pid _ at_⟩
              · exact ⟨rfl, fun _ _ => Iff.rfl⟩
          | insert q r taken w k =>
              refine .inr ?_
              simp only [State.step, at_]
              split
              · exact ⟨rfl, goOn_committed s pid [] at_⟩
              · split
                · exact ⟨rfl, goOn_committed s pid _ at_⟩
                · exact ⟨rfl, fun _ _ => Iff.rfl⟩

section

variable [DecidableEq R] {apply : Db → W → Db} {s : State Db R W Q ε α} {e : Event} {q : Pid} {a : α}

/-- What a step adds to the calls that have committed: one that was about to. -/
theorem committed_cases (ended : (s.step apply e).proc q = .committed a) :
    s.proc q = .committed a ∨ ∃ pending, e = .step q ∧ s.proc q = .running (.done a) pending ∧
      (s.step apply e).db = view apply s.db pending := by
  rcases s.step_cases apply e with ⟨pid, a', pending, rfl, at_, stepped⟩ | ⟨-, before⟩
  · by_cases own : q = pid
    · subst own
      obtain rfl : a' = a := by simpa [stepped, State.finish] using ended
      exact .inr ⟨pending, rfl, at_, by rw [stepped]⟩
    · exact .inl (by simpa [stepped, State.finish, Function.update_of_ne own] using ended)
  · exact .inl ((before q a).mp ended)

theorem committed_stays (before : s.proc q = .committed a) : (s.step apply e).proc q = .committed a := by
  rcases s.step_cases apply e with ⟨pid, a', pending, -, at_, stepped⟩ | ⟨-, same⟩
  · rw [stepped]
    by_cases own : q = pid
    · rw [own, at_] at before
      cases before
    · simpa [State.finish, Function.update_of_ne own] using before
  · exact (same q a).mpr before

end

/-- Every call is about to start. -/
def State.initial (db : Db) (program : Pid → Tx Db R W Q ε α) : State Db R W Q ε α where
  db := db
  locks := []
  proc pid := .running (program pid) []

end

end Transactions
