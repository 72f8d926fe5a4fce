import PackageRegistry.Lib.Transactions

/-! # Reasoning about one transaction among others

A transaction is proved against a relation that says what others may commit while it
holds its locks and before its next statement. What it establishes at its end may
then be used to show that its own commit stays within the relations of the others.
-/

namespace Transactions

variable {Db R W Q ε α β : Type}

abbrev Held (R : Type) := List (R × LockMode)

/-- What others may do to the database while a transaction holds locks and has a
    certain statement next. -/
structure Rely (Db R Q : Type) where
  allows : Option Q → Held R → Db → Db → Prop
  refl : ∀ q held db, allows q held db db
  trans : ∀ {q held a b c}, allows q held a b → allows q held b c → allows q held a c

abbrev Post (Db R W ε α : Type) := Except ε α → Db → List W → Held R → Prop

section

variable (apply : Db → W → Db) (rely : Rely Db R Q)

/-- However others interfere between its statements, the transaction ends with `post`. -/
def Holds (post : Post Db R W ε α) : Tx Db R W Q ε α → Db → List W → Held R → Prop
  | .done a, db, pending, held => ∀ db', rely.allows none held db db' → post (.ok a) db' pending held
  | .raise e, db, pending, held =>
      ∀ db', rely.allows none held db db' → post (.error e) db' pending held
  | .read q k, db, pending, held =>
      ∀ db', rely.allows (some q) held db db' →
        Holds post (k (view apply db' pending)) db' pending held
  | .lock q r m k, db, pending, held =>
      ∀ db', rely.allows (some q) held db db' → Holds post k db' pending ((r, m) :: held)
  | .insert q r taken w k, db, pending, held =>
      ∀ db', rely.allows (some q) held db db' →
        if taken (view apply db' pending) then Holds post (k false) db' pending held
        else Holds post (k true) db' (pending ++ [w]) ((r, .update) :: held)
  | .write q w k, db, pending, held =>
      ∀ db', rely.allows (some q) held db db' → Holds post k db' (pending ++ [w]) held

end

variable {apply : Db → W → Db} {rely : Rely Db R Q} {post post' : Post Db R W ε α}

/-- What holds of a transaction still holds after others have committed. -/
theorem Holds.stable {t : Tx Db R W Q ε α} {db db' : Db} {pending : List W} {held : Held R}
    (h : Holds apply rely post t db pending held) (allowed : rely.allows t.next held db db') :
    Holds apply rely post t db' pending held := by
  cases t <;> exact fun db'' later => h db'' (rely.trans allowed later)

theorem Holds.mono {t : Tx Db R W Q ε α} {db : Db} {pending : List W} {held : Held R}
    (h : Holds apply rely post t db pending held)
    (weaker : ∀ result db pending held, post result db pending held →
      post' result db pending held) : Holds apply rely post' t db pending held := by
  induction t generalizing db pending held with
  | done a | raise e => exact fun db' allowed => weaker _ _ _ _ (h db' allowed)
  | read q k ih => exact fun db' allowed => ih _ (h db' allowed)
  | lock q r m k ih => exact fun db' allowed => ih (h db' allowed)
  | insert q r taken w k ih =>
      intro db' allowed
      have inner := h db' allowed
      split
      · rename_i found
        rw [if_pos found] at inner
        exact ih false inner
      · rename_i fresh
        rw [if_neg fresh] at inner
        exact ih true inner
  | write q w k ih => exact fun db' allowed => ih (h db' allowed)

/-- Sequencing: the second program starts where the first one ends. -/
theorem Holds.bind {t : Tx Db R W Q ε β} {f : β → Tx Db R W Q ε α} {db : Db} {pending : List W}
    {held : Held R}
    (h : Holds apply rely (fun result db pending held => match result with
      | .ok b => Holds apply rely post (f b) db pending held
      | .error e => post (.error e) db pending held) t db pending held) :
    Holds apply rely post (t.bind f) db pending held := by
  induction t generalizing db pending held with
  | done b => exact h db (rely.refl _ _ _)
  | raise e => exact h
  | read q k ih => exact fun db' allowed => ih _ (h db' allowed)
  | lock q r m k ih => exact fun db' allowed => ih (h db' allowed)
  | insert q r taken w k ih =>
      intro db' allowed
      have inner := h db' allowed
      split
      · rename_i found
        rw [if_pos found] at inner
        exact ih false inner
      · rename_i fresh
        rw [if_neg fresh] at inner
        exact ih true inner
  | write q w k ih => exact fun db' allowed => ih (h db' allowed)

/-! The rules for single statements. Each leaves the rest of the program to be proved. -/

theorem Holds.return {a : α} {db : Db} {pending : List W} {held : Held R}
    (h : ∀ db', rely.allows none held db db' → post (.ok a) db' pending held) :
    Holds apply rely post (.done a) db pending held := h

theorem Holds.fail {e : ε} {db : Db} {pending : List W} {held : Held R}
    (h : ∀ db', rely.allows none held db db' → post (.error e) db' pending held) :
    Holds apply rely post (.raise e) db pending held := h

theorem Holds.query {q : Q} {g : Db → β} {f : β → Tx Db R W Q ε α} {db : Db} {pending : List W}
    {held : Held R}
    (h : ∀ db', rely.allows (some q) held db db' →
      Holds apply rely post (f (g (view apply db' pending))) db' pending held) :
    Holds apply rely post ((Tx.query q g).bind f) db pending held := h

theorem Holds.acquire {q : Q} {r : R} {m : LockMode} {f : Unit → Tx Db R W Q ε α} {db : Db}
    {pending : List W} {held : Held R}
    (h : ∀ db', rely.allows (some q) held db db' →
      Holds apply rely post (f ()) db' pending ((r, m) :: held)) :
    Holds apply rely post ((Tx.acquire q r m).bind f) db pending held := h

theorem Holds.put {q : Q} {w : W} {f : Unit → Tx Db R W Q ε α} {db : Db} {pending : List W}
    {held : Held R}
    (h : ∀ db', rely.allows (some q) held db db' →
      Holds apply rely post (f ()) db' (pending ++ [w]) held) :
    Holds apply rely post ((Tx.put q w).bind f) db pending held := h

theorem Holds.insertNew {q : Q} {r : R} {taken : Db → Bool} {w : W} {f : Bool → Tx Db R W Q ε α}
    {db : Db} {pending : List W} {held : Held R}
    (found : ∀ db', rely.allows (some q) held db db' → taken (view apply db' pending) = true →
      Holds apply rely post (f false) db' pending held)
    (fresh : ∀ db', rely.allows (some q) held db db' → taken (view apply db' pending) = false →
      Holds apply rely post (f true) db' (pending ++ [w]) ((r, .update) :: held)) :
    Holds apply rely post ((Tx.insertNew q r taken w).bind f) db pending held := by
  intro db' allowed
  split
  · exact found db' allowed ‹_›
  · rename_i free
    exact fresh db' allowed (Bool.eq_false_iff.mpr free)

/-! ## Locks -/

/-- Locks of different transactions on one resource do not conflict. -/
def Locked (locks : List (Pid × R × LockMode)) : Prop :=
  ∀ p q r m m', p ≠ q → (p, r, m) ∈ locks → (q, r, m') ∈ locks → m.conflicts m' = false

theorem mem_held {s : State Db R W Q ε α} {pid : Pid} {r : R} {m : LockMode} :
    (r, m) ∈ s.held pid ↔ (pid, r, m) ∈ s.locks := by
  simp [State.held]

theorem Locked.release {locks : List (Pid × R × LockMode)} (h : Locked locks) (pid : Pid) :
    Locked (release locks pid) :=
  fun p q r m m' other hp hq =>
    h p q r m m' other (List.mem_of_mem_filter hp) (List.mem_of_mem_filter hq)

theorem Locked.grant [DecidableEq R] {locks : List (Pid × R × LockMode)} (h : Locked locks)
    {pid : Pid} {r : R} {m : LockMode} (free : granted locks pid r m = true) :
    Locked ((pid, r, m) :: locks) := by
  have unhindered : ∀ p m', p ≠ pid → (p, r, m') ∈ locks → m'.conflicts m = false := by
    intro p m' other there
    have := List.all_eq_true.mp free _ there
    simpa [other] using this
  intro p q r' n n' other hp hq
  rcases List.mem_cons.mp hp with newP | oldP <;> rcases List.mem_cons.mp hq with newQ | oldQ
  · cases newP
    cases newQ
    exact absurd rfl other
  · cases newP
    rw [LockMode.conflicts_comm]
    exact unhindered q n' (Ne.symm other) oldQ
  · cases newQ
    exact unhindered p n other oldP
  · exact h p q r' n n' other oldP oldQ

/-! ## Steps of the system -/

section

variable (s : State Db R W Q ε α) (pid q : Pid)

@[simp] theorem finish_held (other : q ≠ pid) (outcome : Proc Db R W Q ε α) :
    (s.finish pid outcome).held q = s.held q := by
  simp only [State.finish, State.held, release, List.filter_filter]
  congr 2
  funext l
  by_cases mine : l.1 = q
  · simp [mine, other]
  · simp [mine]

@[simp] theorem goOn_held_other (other : q ≠ pid) (t : Tx Db R W Q ε α) (pending : List W)
    (new : Held R) : (s.goOn pid t pending new).held q = s.held q := by
  have none : (new.map (Prod.mk pid)).filter (fun l => l.1 == q) = [] := by
    rw [List.filter_eq_nil_iff]
    rintro l inNew
    obtain ⟨_, _, rfl⟩ := List.mem_map.mp inNew
    simpa using Ne.symm other
  simp [State.goOn, State.held, List.filter_append, none]

@[simp] theorem goOn_held (t : Tx Db R W Q ε α) (pending : List W) (new : Held R) :
    (s.goOn pid t pending new).held pid = new ++ s.held pid := by
  have all : (new.map (Prod.mk pid)).filter (fun l => l.1 == pid) = new.map (Prod.mk pid) := by
    rw [List.filter_eq_self]
    rintro l inNew
    obtain ⟨_, _, rfl⟩ := List.mem_map.mp inNew
    exact beq_self_eq_true pid
  simp [State.goOn, State.held, List.filter_append, all, Function.comp_def]

end

section

variable (apply : Db → W → Db) (rely : Pid → Rely Db R Q) (post : Pid → Post Db R W ε α)

/-- Every running transaction is on its way to its postcondition. -/
structure Following (s : State Db R W Q ε α) : Prop where
  locked : Locked s.locks
  holds : ∀ pid t pending, s.proc pid = .running t pending →
    Holds apply (rely pid) (post pid) t s.db pending (s.held pid)

/-- A commit stays within what every other running transaction relies on. -/
def Harmless (s : State Db R W Q ε α) (pid : Pid) (pending : List W) : Prop :=
  ∀ q t pending', q ≠ pid → s.proc q = .running t pending' →
    (rely q).allows t.next (s.held q) s.db (view apply s.db pending)

end

variable {rely : Pid → Rely Db R Q} {post : Pid → Post Db R W ε α} {s : State Db R W Q ε α}

theorem Following.post_of_done (h : Following apply rely post s) {pid : Pid} {a : α}
    {pending : List W} (at_ : s.proc pid = .running (.done a) pending) :
    post pid (.ok a) s.db pending (s.held pid) :=
  h.holds pid _ _ at_ s.db ((rely pid).refl _ _ _)

theorem Following.post_of_raise (h : Following apply rely post s) {pid : Pid} {e : ε}
    {pending : List W} (at_ : s.proc pid = .running (.raise e) pending) :
    post pid (.error e) s.db pending (s.held pid) :=
  h.holds pid _ _ at_ s.db ((rely pid).refl _ _ _)

/-- No lock of one transaction conflicts with a lock of another. -/
theorem Following.compatible (h : Following apply rely post s) {p q : Pid} (other : p ≠ q) {r : R}
    {m m' : LockMode} (hp : (r, m) ∈ s.held p) (hq : (r, m') ∈ s.held q) :
    m.conflicts m' = false :=
  h.locked p q r m m' other (mem_held.mp hp) (mem_held.mp hq)

theorem Following.finish (h : Following apply rely post s) (pid : Pid)
    {outcome : Proc Db R W Q ε α} (ended : ∀ t pending, outcome ≠ .running t pending) :
    Following apply rely post (s.finish pid outcome) := by
  refine ⟨h.locked.release pid, fun q t pending at_ => ?_⟩
  by_cases own : q = pid
  · subst own
    exact absurd (by simpa [State.finish] using at_) (ended t pending)
  · rw [finish_held s pid q own]
    exact h.holds q t pending (by simpa [State.finish, Function.update_of_ne own] using at_)

theorem Following.goOn (h : Following apply rely post s) (pid : Pid) {t : Tx Db R W Q ε α}
    {pending : List W} {new : Held R} (locked : Locked (new.map (Prod.mk pid) ++ s.locks))
    (own : Holds apply (rely pid) (post pid) t s.db pending (new ++ s.held pid)) :
    Following apply rely post (s.goOn pid t pending new) := by
  refine ⟨locked, fun q t' pending' at_ => ?_⟩
  by_cases same : q = pid
  · subst same
    have here : t = t' ∧ pending = pending' := by simpa [State.goOn] using at_
    obtain ⟨rfl, rfl⟩ := here
    rwa [goOn_held]
  · rw [goOn_held_other s pid q same]
    exact h.holds q t' pending' (by simpa [State.goOn, Function.update_of_ne same] using at_)

/-- The step lemma: statements keep everybody on the way, and so does a harmless commit. -/
theorem Following.step [DecidableEq R] (h : Following apply rely post s) (e : Event)
    (harmless : ∀ pid a pending, e = .step pid → s.proc pid = .running (.done a) pending →
      Harmless apply rely s pid pending) :
    Following apply rely post (s.step apply e) := by
  cases e with
  | abort pid =>
      simp only [State.step]
      split
      · exact h.finish pid (by simp)
      · exact h
  | step pid =>
      simp only [State.step]
      split
      · rename_i t pending at_
        have own := h.holds pid t pending at_
        have stay := (rely pid).refl t.next (s.held pid) s.db
        cases t with
        | done a =>
            have quiet := harmless pid a pending rfl at_
            have finished : Following apply rely post (s.finish pid (.committed a)) :=
              h.finish pid (by simp)
            refine ⟨finished.locked, fun q t pending' there => ?_⟩
            by_cases same : q = pid
            · subst same
              simp [State.finish] at there
            · have there' : s.proc q = .running t pending' := by
                simpa [State.finish, Function.update_of_ne same] using there
              have still := (h.holds q t pending' there').stable (quiet q t pending' same there')
              have kept := finish_held s pid q same (.committed a)
              simp only [State.held] at kept still ⊢
              rwa [kept]
        | raise e => exact h.finish pid (by simp)
        | read q k => exact h.goOn pid h.locked (own s.db stay)
        | lock q r m k =>
            simp only
            split
            · exact h.goOn pid (h.locked.grant ‹_›) (own s.db stay)
            · exact h
        | insert q r taken w k =>
            have inner := own s.db stay
            simp only
            split
            · rename_i found
              rw [if_pos found] at inner
              exact h.goOn pid h.locked inner
            · rename_i fresh
              rw [if_neg fresh] at inner
              split
              · exact h.goOn pid (h.locked.grant ‹_›) inner
              · exact h
        | write q w k => exact h.goOn pid h.locked (own s.db stay)
      · exact h

theorem Following.initial (db : Db) (program : Pid → Tx Db R W Q ε α)
    (holds : ∀ pid, Holds apply (rely pid) (post pid) (program pid) db [] []) :
    Following apply rely post (State.initial db program) := by
  refine ⟨fun p q r m m' _ hp _ => (nomatch hp), fun pid t pending at_ => ?_⟩
  cases at_
  exact holds pid

end Transactions
