import Mathlib.Data.List.Count

/-! # Steps that may raise

A program of steps on a state, each of which may raise, with the handlers of `try`. A journal
keeps the steps that were taken and tells which of them have raised. The rules follow a program
to both of its ends.
-/

namespace Raising

variable {σ ω δ V ε α β : Type}

/-- A state, the steps so far with whether each has raised, and the local variables. -/
structure Machine (σ ω V : Type) where
  state : σ
  journal : List (ω × Bool)
  locals : V

def Machine.raises (m : Machine σ ω V) : Nat := m.journal.countP (·.2)

/-- What was done before an exception stays done. -/
def Act (σ ω V ε α : Type) := Machine σ ω V → Except ε α × Machine σ ω V

namespace Act

def raise (e : ε) : Act σ ω V ε α := fun m => (.error e, m)

def bind (a : Act σ ω V ε α) (f : α → Act σ ω V ε β) : Act σ ω V ε β := fun m =>
  match a m with
  | (.ok x, m') => f x m'
  | (.error e, m') => (.error e, m')

instance : Monad (Act σ ω V ε) where
  pure x := fun m => (.ok x, m)
  bind := bind

/-- `try: a; except Exception as e: handler(e)` -/
def handle (a : Act σ ω V ε α) (handler : ε → Act σ ω V ε α) : Act σ ω V ε α := fun m =>
  match a m with
  | (.ok x, m') => (.ok x, m')
  | (.error e, m') => handler e m'

/-- `try: a; finally: last` -/
def andFinally (a : Act σ ω V ε α) (last : Act σ ω V ε Unit) : Act σ ω V ε α := fun m =>
  match a m with
  | (.ok x, m') => bind last (fun _ => pure x) m'
  | (.error e, m') => bind last (fun _ => raise e) m'

def locals : Act σ ω V ε V := fun m => (.ok m.locals, m)

def journal : Act σ ω V ε (List (ω × Bool)) := fun m => (.ok m.journal, m)

def assign (v : V) : Act σ ω V ε Unit := fun m => (.ok (), { m with locals := v })

/-- One step. From outside comes whether it raises and what it has done until then; it may also
    raise by itself. -/
def step (fault : List (ω × Bool) → ω → Option δ) (error : ε) (op : ω) (works : σ → Except ε α × σ)
    (breaks : δ → σ → σ) : Act σ ω V ε α := fun m =>
  match fault m.journal op with
  | some damage =>
      (.error error,
        { m with state := breaks damage m.state, journal := m.journal ++ [(op, true)] })
  | none =>
      ((works m.state).1,
        { m with
          state := (works m.state).2
          journal := m.journal ++ [(op, !(works m.state).1.isOk)] })

end Act

/-! ## Rules -/

def settles (done : α → Machine σ ω V → Prop) (raised : ε → Machine σ ω V → Prop) :
    Except ε α → Machine σ ω V → Prop
  | .ok x, m => done x m
  | .error e, m => raised e m

/-- From this machine the program ends with `done`, or raises with `raised`. -/
def Ensures (a : Act σ ω V ε α) (m : Machine σ ω V) (done : α → Machine σ ω V → Prop)
    (raised : ε → Machine σ ω V → Prop) : Prop :=
  settles done raised (a m).1 (a m).2

section

variable {a : Act σ ω V ε α} {m : Machine σ ω V} {done done' : α → Machine σ ω V → Prop}
  {raised raised' : ε → Machine σ ω V → Prop}

theorem Ensures.mono (h : Ensures a m done raised) (ends : ∀ x m, done x m → done' x m)
    (fails : ∀ e m, raised e m → raised' e m) : Ensures a m done' raised' := by
  unfold Ensures at h ⊢
  cases result : (a m).1 with
  | ok x =>
      rw [result] at h
      exact ends x _ h
  | error e =>
      rw [result] at h
      exact fails e _ h

/-- What holds at both ends holds of the machine that is left. -/
theorem Ensures.final {Q : Machine σ ω V → Prop} (h : Ensures a m (fun _ m => Q m) fun _ m => Q m) :
    Q (a m).2 := by
  unfold Ensures at h
  cases result : (a m).1 with
  | ok x =>
      rw [result] at h
      exact h
  | error e =>
      rw [result] at h
      exact h

theorem Ensures.bind {f : α → Act σ ω V ε β} {done : β → Machine σ ω V → Prop}
    (h : Ensures a m (fun x m => Ensures (f x) m done raised) raised) :
    Ensures (a >>= f) m done raised := by
  have unfolded : (a >>= f) m = Act.bind a f m := rfl
  unfold Ensures at h ⊢
  rw [unfolded, Act.bind]
  split
  · rename_i x m' here
    rw [here] at h
    exact h
  · rename_i e m' here
    rw [here] at h
    exact h

theorem Ensures.handle {handler : ε → Act σ ω V ε α}
    (h : Ensures a m done fun e m => Ensures (handler e) m done raised) :
    Ensures (a.handle handler) m done raised := by
  unfold Ensures at h ⊢
  rw [Act.handle]
  split
  · rename_i x m' here
    rw [here] at h
    exact h
  · rename_i e m' here
    rw [here] at h
    exact h

theorem Ensures.andFinally {last : Act σ ω V ε Unit}
    (h : Ensures a m (fun x m => Ensures last m (fun _ m => done x m) raised)
      fun e m => Ensures last m (fun _ m => raised e m) raised) :
    Ensures (a.andFinally last) m done raised := by
  unfold Ensures at h
  rw [Ensures, Act.andFinally]
  split
  · rename_i x m' here
    rw [here] at h
    exact Ensures.bind h
  · rename_i e m' here
    rw [here] at h
    exact Ensures.bind h

theorem Ensures.pure {x : α} (h : done x m) : Ensures (Pure.pure x) m done raised := h

theorem Ensures.raise {e : ε} (h : raised e m) : Ensures (Act.raise e) m done raised := h

theorem Ensures.locals {done : V → Machine σ ω V → Prop} {raised : ε → Machine σ ω V → Prop}
    (h : done m.locals m) : Ensures Act.locals m done raised := h

theorem Ensures.journal {done : List (ω × Bool) → Machine σ ω V → Prop}
    {raised : ε → Machine σ ω V → Prop} (h : done m.journal m) :
    Ensures Act.journal m done raised := h

theorem Ensures.assign {v : V} {done : Unit → Machine σ ω V → Prop}
    {raised : ε → Machine σ ω V → Prop} (h : done () { m with locals := v }) :
    Ensures (Act.assign v) m done raised := h

/-- An invariant of every round holds after the loop. -/
theorem Ensures.forM {l : List β} {f : β → Act σ ω V ε Unit} {I : Machine σ ω V → Prop}
    (round : ∀ x ∈ l, ∀ m, I m → Ensures (f x) m (fun _ m => I m) raised) (start : I m) :
    Ensures (l.forM f) m (fun _ m => I m) raised := by
  induction l generalizing m with
  | nil => exact start
  | cons x rest ih =>
      rw [List.forall_mem_cons] at round
      refine Ensures.bind ((round.1 m start).mono (fun _ m next => ?_) fun _ _ failed => failed)
      exact ih round.2 next

/-- A step raises from outside, raises by itself, or works. -/
theorem Ensures.step {fault : List (ω × Bool) → ω → Option δ} {error : ε} {op : ω}
    {works : σ → Except ε α × σ} {breaks : δ → σ → σ}
    (breaking : ∀ damage, fault m.journal op = some damage → raised error
      { m with state := breaks damage m.state, journal := m.journal ++ [(op, true)] })
    (failing : ∀ e s, works m.state = (.error e, s) → raised e
      { m with state := s, journal := m.journal ++ [(op, true)] })
    (working : ∀ x s, works m.state = (.ok x, s) → done x
      { m with state := s, journal := m.journal ++ [(op, false)] }) :
    Ensures (Act.step fault error op works breaks) m done raised := by
  unfold Ensures
  rw [Act.step]
  split
  · rename_i damage broken
    exact breaking damage broken
  · cases worked : works m.state with
    | mk result s =>
        cases result with
        | ok x => exact working x s worked
        | error e => exact failing e s worked

end

/-! ## Invariants -/

/-- Whatever happens, the invariant is kept. -/
def Preserves (K : Machine σ ω V → Prop) (a : Act σ ω V ε α) : Prop :=
  ∀ m, K m → Ensures a m (fun _ m => K m) fun _ m => K m

section

variable {K : Machine σ ω V → Prop} {a : Act σ ω V ε α}

theorem Preserves.pure (x : α) : Preserves K (Pure.pure x : Act σ ω V ε α) := fun _ kept => kept

theorem Preserves.raise (e : ε) : Preserves K (Act.raise e : Act σ ω V ε α) := fun _ kept => kept

theorem Preserves.locals : Preserves K (Act.locals : Act σ ω V ε V) := fun _ kept => kept

theorem Preserves.journal : Preserves K (Act.journal : Act σ ω V ε (List (ω × Bool))) :=
  fun _ kept => kept

theorem Preserves.bind {f : α → Act σ ω V ε β} (first : Preserves K a)
    (next : ∀ x, Preserves K (f x)) : Preserves K (a >>= f) := fun m kept =>
  Ensures.bind ((first m kept).mono (fun x m kept => next x m kept) fun _ _ kept => kept)

theorem Preserves.forM {l : List β} {f : β → Act σ ω V ε Unit}
    (round : ∀ x ∈ l, Preserves K (f x)) : Preserves K (l.forM f) := fun _ kept => Ensures.forM round kept

theorem Preserves.handle {handler : ε → Act σ ω V ε α} (first : Preserves K a)
    (next : ∀ e, Preserves K (handler e)) : Preserves K (a.handle handler) := fun m kept =>
  Ensures.handle ((first m kept).mono (fun _ _ kept => kept) fun e m kept => next e m kept)

theorem Preserves.andFinally {last : Act σ ω V ε Unit} (first : Preserves K a)
    (next : Preserves K last) : Preserves K (a.andFinally last) := fun m kept =>
  Ensures.andFinally ((first m kept).mono (fun _ m kept => next m kept) fun _ m kept => next m kept)

end

@[simp] theorem raises_append (s : σ) (journal : List (ω × Bool)) (op : ω) (raised : Bool) (v : V) :
    Machine.raises ⟨s, journal ++ [(op, raised)], v⟩ =
      journal.countP (·.2) + if raised then 1 else 0 := by
  rw [Machine.raises, List.countP_append, List.countP_singleton]

end Raising
