import PackageRegistry.Lib.Hindsight

/-! # Programs that may fail

Rules of pre- and postconditions for one transaction among others, with the end in sight. How
its writes and locks go on is a reflexive and transitive relation, so that it composes; nothing
is claimed of a program that raises.
-/

namespace Transactions

variable {Db R W Q ε α β : Type}

/-- The writes of a transaction so far, and its locks -/
structure Point (R W : Type) where
  pending : List W
  held : Held R

def Point.start : Point R W := ⟨[], []⟩

def Point.lock (p : Point R W) (r : R) (m : LockMode) : Point R W :=
  { p with held := (r, m) :: p.held }

def Point.write (p : Point R W) (w : W) : Point R W :=
  { p with pending := p.pending ++ [w] }

structure Course (R W : Type) where
  goes : Point R W → Point R W → Prop
  refl : ∀ p, goes p p
  trans : ∀ {a b c}, goes a b → goes b c → goes a c

section

variable (apply : Db → W → Db) (peers : Peers Db R) (C : Course R W)

/-- If the program returns, it has gone on from the point, and its result satisfies `P`. -/
def Leads (P : β → Point R W → Prop) (t : Tx Db R W Q ε β) (fin : Db) (p : Point R W) : Prop :=
  Ends apply peers (fun result _ pending held => match result with
    | .ok b => C.goes p ⟨pending, held⟩ ∧ P b ⟨pending, held⟩
    | .error _ => True) t fin p.pending p.held

end

variable {apply : Db → W → Db} {peers : Peers Db R} {C : Course R W} {fin : Db} {p : Point R W}
  {P : β → Point R W → Prop} {P' : α → Point R W → Prop} {t : Tx Db R W Q ε β}

theorem Leads.pure {b : β} (h : P b p) : Leads apply peers C P (.done b : Tx Db R W Q ε β) fin p :=
  ⟨C.refl p, h⟩

theorem Leads.raise {e : ε} : Leads apply peers C P (.raise e : Tx Db R W Q ε β) fin p := trivial

theorem Leads.query {q : Q} {g : Db → β}
    (h : ∀ db, peers.allows p.held db fin → P (g (view apply db p.pending)) p) :
    Leads apply peers C P (Tx.query q g : Tx Db R W Q ε β) fin p :=
  fun db allowed => ⟨C.refl p, h db allowed⟩

theorem Leads.acquire {q : Q} {r : R} {m : LockMode} {P : Unit → Point R W → Prop}
    (goes : C.goes p (p.lock r m)) (h : P () (p.lock r m)) :
    Leads apply peers C P (Tx.acquire q r m : Tx Db R W Q ε Unit) fin p :=
  ⟨goes, h⟩

theorem Leads.bind {f : β → Tx Db R W Q ε α} (h : Leads apply peers C P t fin p)
    (rest : ∀ b p', C.goes p p' → P b p' → Leads apply peers C P' (f b) fin p') :
    Leads apply peers C P' (t.bind f) fin p := by
  refine Ends.bind (Ends.mono h fun result pending held reached => ?_)
  cases result with
  | error => trivial
  | ok b =>
      refine (rest b ⟨pending, held⟩ reached.1 reached.2).mono fun result pending' held' reached' => ?_
      cases result with
      | error => trivial
      | ok a => exact ⟨C.trans reached.1 reached'.1, reached'.2⟩

theorem Leads.mono {P' : β → Point R W → Prop} (h : Leads apply peers C P t fin p)
    (of : ∀ b p', C.goes p p' → P b p' → P' b p') : Leads apply peers C P' t fin p := by
  refine Ends.mono h fun result pending held reached => ?_
  cases result with
  | error => trivial
  | ok b => exact ⟨reached.1, of b _ reached.1 reached.2⟩

/-- What is known of the program as a whole may be what another relation asks for. -/
theorem Leads.widen {C' : Course R W} (h : Leads apply peers C P t fin p)
    (wider : ∀ b p', C.goes p p' → P b p' → C'.goes p p') :
    Leads apply peers C' (fun b p' => C.goes p p' ∧ P b p') t fin p := by
  refine Ends.mono h fun result pending held reached => ?_
  cases result with
  | error => trivial
  | ok b => exact ⟨wider b _ reached.1 reached.2, reached⟩

/-- What a program leads to is what it ends with. -/
theorem Leads.ends {result : Post Db R W ε β} (h : Leads apply peers C P t fin p)
    (raised : ∀ e pending held, result (.error e) fin pending held)
    (returned : ∀ b p', C.goes p p' → P b p' → result (.ok b) fin p'.pending p'.held) :
    Ends apply peers result t fin p.pending p.held := by
  refine Ends.mono h fun outcome pending held reached => ?_
  cases outcome with
  | error e => exact raised e pending held
  | ok b => exact returned b ⟨pending, held⟩ reached.1 reached.2

/-- Where everything is accepted, every program ends well. -/
theorem ends_always {result : Post Db R W ε β} (h : ∀ r pending held, result r fin pending held)
    (t : Tx Db R W Q ε β) (pending : List W) (held : Held R) :
    Ends apply peers result t fin pending held := by
  induction t generalizing pending held with
  | done b | raise e => exact h _ _ _
  | read q k ih => exact fun db _ => ih _ pending held
  | lock q r m k ih => exact ih pending _
  | insert q r taken w k ih => exact ⟨fun _ _ _ => ih _ pending held, fun _ _ _ => ih _ _ _⟩
  | write q w k ih => exact ih _ held

end Transactions
