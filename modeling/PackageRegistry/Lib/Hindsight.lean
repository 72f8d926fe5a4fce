import PackageRegistry.Lib.Interference

/-! # Transactions in hindsight

A row that a transaction has locked is at its commit what it was when it was read. So
a transaction can be judged against the database that it commits to: each of its
statements has read some earlier database, and between that one and the last, others
have done only what the locks held at that statement allow.
-/

namespace Transactions

variable {Db R W Q ε α β : Type}

/-- What others may do to the database while a transaction holds locks. -/
structure Peers (Db R : Type) where
  allows : Held R → Db → Db → Prop
  refl : ∀ held db, allows held db db
  trans : ∀ {held a b c}, allows held a b → allows held b c → allows held a c
  /-- More locks leave less to others. -/
  more : ∀ {l held a b}, allows (l :: held) a b → allows held a b

section

variable (apply : Db → W → Db) (peers : Peers Db R)

/-- Whatever its statements have read, the transaction ends with `post` when the
    database is `fin` at its end. -/
def Ends (post : Post Db R W ε α) : Tx Db R W Q ε α → Db → List W → Held R → Prop
  | .done a, fin, pending, held => post (.ok a) fin pending held
  | .raise e, fin, pending, held => post (.error e) fin pending held
  | .read _ k, fin, pending, held =>
      ∀ db, peers.allows held db fin → Ends post (k (view apply db pending)) fin pending held
  | .lock _ r m k, fin, pending, held => Ends post k fin pending ((r, m) :: held)
  | .insert _ r taken w k, fin, pending, held =>
      (∀ db, peers.allows held db fin → taken (view apply db pending) = true →
        Ends post (k false) fin pending held) ∧
      (∀ db, peers.allows ((r, .update) :: held) db fin → taken (view apply db pending) = false →
        Ends post (k true) fin (pending ++ [w]) ((r, .update) :: held))
  | .write _ w k, fin, pending, held => Ends post k fin (pending ++ [w]) held

end

variable {apply : Db → W → Db} {peers : Peers Db R} {post post' : Post Db R W ε α}

theorem Ends.mono {t : Tx Db R W Q ε α} {fin : Db} {pending : List W} {held : Held R}
    (h : Ends apply peers post t fin pending held)
    (weaker : ∀ result pending held, post result fin pending held → post' result fin pending held) :
    Ends apply peers post' t fin pending held := by
  induction t generalizing pending held with
  | done a | raise e => exact weaker _ _ _ h
  | read q k ih => exact fun db allowed => ih _ (h db allowed)
  | lock q r m k ih => exact ih h
  | insert q r taken w k ih =>
      exact ⟨fun db allowed found => ih false (h.1 db allowed found),
        fun db allowed free => ih true (h.2 db allowed free)⟩
  | write q w k ih => exact ih h

theorem Ends.and {t : Tx Db R W Q ε α} {fin : Db} {pending : List W} {held : Held R}
    (h : Ends apply peers post t fin pending held) (h' : Ends apply peers post' t fin pending held) :
    Ends apply peers (fun result fin pending held =>
      post result fin pending held ∧ post' result fin pending held) t fin pending held := by
  induction t generalizing pending held with
  | done a | raise e => exact ⟨h, h'⟩
  | read q k ih => exact fun db allowed => ih _ (h db allowed) (h' db allowed)
  | lock q r m k ih => exact ih h h'
  | insert q r taken w k ih =>
      exact ⟨fun db allowed found => ih false (h.1 db allowed found) (h'.1 db allowed found),
        fun db allowed free => ih true (h.2 db allowed free) (h'.2 db allowed free)⟩
  | write q w k ih => exact ih h h'

/-- What holds among all peers holds among more restrained ones. -/
theorem Ends.among {t : Tx Db R W Q ε α} {fin : Db} {pending : List W} {held : Held R}
    {restrained : Peers Db R}
    (less : ∀ held a b, restrained.allows held a b → peers.allows held a b)
    (h : Ends apply peers post t fin pending held) :
    Ends apply restrained post t fin pending held := by
  induction t generalizing pending held with
  | done a | raise e => exact h
  | read q k ih => exact fun db allowed => ih _ (h db (less _ _ _ allowed))
  | lock q r m k ih => exact ih h
  | insert q r taken w k ih =>
      exact ⟨fun db allowed found => ih false (h.1 db (less _ _ _ allowed) found),
        fun db allowed free => ih true (h.2 db (less _ _ _ allowed) free)⟩
  | write q w k ih => exact ih h

/-- Sequencing: the second program starts where the first one ends. -/
theorem Ends.bind {t : Tx Db R W Q ε β} {f : β → Tx Db R W Q ε α} {fin : Db} {pending : List W}
    {held : Held R}
    (h : Ends apply peers (fun result fin pending held => match result with
      | .ok b => Ends apply peers post (f b) fin pending held
      | .error e => post (.error e) fin pending held) t fin pending held) :
    Ends apply peers post (t.bind f) fin pending held := by
  induction t generalizing pending held with
  | done b | raise e => exact h
  | read q k ih => exact fun db allowed => ih _ (h db allowed)
  | lock q r m k ih => exact ih h
  | insert q r taken w k ih =>
      exact ⟨fun db allowed found => ih false (h.1 db allowed found),
        fun db allowed free => ih true (h.2 db allowed free)⟩
  | write q w k ih => exact ih h

theorem ends_of_forall {fin : Db} (h : ∀ result pending held, post result fin pending held)
    {t : Tx Db R W Q ε α} {pending : List W} {held : Held R} :
    Ends apply peers post t fin pending held := by
  induction t generalizing pending held with
  | done | raise => exact h _ _ _
  | read q k ih => exact fun db _ => ih _
  | lock q r m k ih => exact ih
  | insert q r taken w k ih => exact ⟨fun _ _ _ => ih false, fun _ _ _ => ih true⟩
  | write q w k ih => exact ih

/-- What holds with the exceptions turned into others. -/
theorem Ends.mapError {ε' : Type} {f : ε' → ε} {t : Tx Db R W Q ε' α} {fin : Db} {pending : List W}
    {held : Held R}
    (h : Ends apply peers (fun result fin pending held => post (match result with
      | .ok a => .ok a
      | .error e => .error (f e)) fin pending held) t fin pending held) :
    Ends apply peers post (t.mapError f) fin pending held := by
  induction t generalizing pending held with
  | done | raise => exact h
  | read q k ih => exact fun db allowed => ih _ (h db allowed)
  | lock q r m k ih => exact ih h
  | insert q r taken w k ih =>
      exact ⟨fun db allowed found => ih false (h.1 db allowed found),
        fun db allowed free => ih true (h.2 db allowed free)⟩
  | write q w k ih => exact ih h

/-! The rules for single statements. Each leaves the rest of the program to be proved. -/

section

variable {fin : Db} {pending : List W} {held : Held R}

theorem Ends.query {q : Q} {g : Db → β} {f : β → Tx Db R W Q ε α}
    (h : ∀ db, peers.allows held db fin →
      Ends apply peers post (f (g (view apply db pending))) fin pending held) :
    Ends apply peers post ((Tx.query q g).bind f) fin pending held := h

theorem Ends.acquire {q : Q} {r : R} {m : LockMode} {f : Unit → Tx Db R W Q ε α}
    (h : Ends apply peers post (f ()) fin pending ((r, m) :: held)) :
    Ends apply peers post ((Tx.acquire q r m).bind f) fin pending held := h

theorem Ends.put {q : Q} {w : W} {f : Unit → Tx Db R W Q ε α}
    (h : Ends apply peers post (f ()) fin (pending ++ [w]) held) :
    Ends apply peers post ((Tx.put q w).bind f) fin pending held := h

theorem Ends.insertNew {q : Q} {r : R} {taken : Db → Bool} {w : W} {f : Bool → Tx Db R W Q ε α}
    (found : ∀ db, peers.allows held db fin → taken (view apply db pending) = true →
      Ends apply peers post (f false) fin pending held)
    (fresh : ∀ db, peers.allows ((r, .update) :: held) db fin →
      taken (view apply db pending) = false →
      Ends apply peers post (f true) fin (pending ++ [w]) ((r, .update) :: held)) :
    Ends apply peers post ((Tx.insertNew q r taken w).bind f) fin pending held := ⟨found, fresh⟩

end

/-! ## Steps of others -/

section

variable {s : State Db R W Q ε α} {pid : Pid} {e : Event}

/-- A step of others leaves a call where it stands, and leaves it its locks. -/
theorem step_other [DecidableEq R] (apply : Db → W → Db) (other : e ≠ .step pid)
    (other' : e ≠ .abort pid) :
    (s.step apply e).proc pid = s.proc pid ∧ (s.step apply e).held pid = s.held pid := by
  have finished : ∀ {q outcome db}, pid ≠ q →
      ({ s.finish q outcome with db := db } : State Db R W Q ε α).proc pid = s.proc pid ∧
        ({ s.finish q outcome with db := db } : State Db R W Q ε α).held pid = s.held pid :=
    fun {q outcome _} away => ⟨by simp [State.finish, Function.update_of_ne away],
      finish_held s q pid away outcome⟩
  have going : ∀ {q t pending new}, pid ≠ q → (s.goOn q t pending new).proc pid = s.proc pid ∧
      (s.goOn q t pending new).held pid = s.held pid :=
    fun {q t pending new} away => ⟨by simp [State.goOn, Function.update_of_ne away],
      goOn_held_other s q pid away t pending new⟩
  cases e with
  | abort q =>
      have away : pid ≠ q := fun same => other' (same ▸ rfl)
      simp only [State.step]
      split
      · exact finished away
      · exact ⟨rfl, rfl⟩
  | step q =>
      have away : pid ≠ q := fun same => other (same ▸ rfl)
      simp only [State.step]
      split
      · rename_i t pending _
        cases t with
        | done a | raise e => exact finished away
        | read q' k | write q' w k => exact going away
        | lock q' r m k =>
            simp only
            split
            · exact going away
            · exact ⟨rfl, rfl⟩
        | insert q' r taken w k =>
            simp only
            split
            · exact going away
            · split
              · exact going away
              · exact ⟨rfl, rfl⟩
      · exact ⟨rfl, rfl⟩

/-- A call has raised before the step, or it is about to. -/
theorem step_raised [DecidableEq R] (apply : Db → W → Db) {err : ε}
    (raised : (s.step apply e).proc pid = .raised err) :
    s.proc pid = .raised err ∨ ∃ pending, s.proc pid = .running (.raise err) pending := by
  by_cases own : e = .step pid
  · subst own
    simp only [State.step] at raised
    split at raised
    · rename_i t pending at_
      cases t with
      | done a => simp [State.finish] at raised
      | raise err' =>
          obtain rfl : err' = err := by simpa [State.finish] using raised
          exact .inr ⟨pending, at_⟩
      | read | write => simp [State.goOn] at raised
      | lock q r m k =>
          simp only at raised
          split at raised
          · simp [State.goOn] at raised
          · exact .inl raised
      | insert q r taken w k =>
          simp only at raised
          split at raised
          · simp [State.goOn] at raised
          · split at raised
            · simp [State.goOn] at raised
            · exact .inl raised
    · exact .inl raised
  · by_cases own' : e = .abort pid
    · subst own'
      simp only [State.step] at raised
      split at raised
      · simp [State.finish] at raised
      · exact .inl raised
    · exact .inl ((step_other (s := s) apply own own').1.symm.trans raised)

end

/-! ## Steps of the system -/

section

variable (apply : Db → W → Db) (peers : Pid → Peers Db R) (post : Pid → Post Db R W ε α)

/-- Every running transaction is heading for its postcondition, whatever others may
    still do. -/
structure Heading (s : State Db R W Q ε α) : Prop where
  locked : Locked s.locks
  ends : ∀ pid t pending, s.proc pid = .running t pending →
    ∀ fin, (peers pid).allows (s.held pid) s.db fin →
      Ends apply (peers pid) (post pid) t fin pending (s.held pid)

/-- A commit stays within what every other running transaction leaves to others. -/
def Fair (s : State Db R W Q ε α) (pid : Pid) (pending : List W) : Prop :=
  ∀ q t pending', q ≠ pid → s.proc q = .running t pending' →
    (peers q).allows (s.held q) s.db (view apply s.db pending)

end

variable {peers : Pid → Peers Db R} {post : Pid → Post Db R W ε α} {s : State Db R W Q ε α}

theorem Heading.post_of_done (h : Heading apply peers post s) {pid : Pid} {a : α}
    {pending : List W} (at_ : s.proc pid = .running (.done a) pending) :
    post pid (.ok a) s.db pending (s.held pid) :=
  h.ends pid _ _ at_ s.db ((peers pid).refl _ _)

theorem Heading.post_of_raise (h : Heading apply peers post s) {pid : Pid} {e : ε}
    {pending : List W} (at_ : s.proc pid = .running (.raise e) pending) :
    post pid (.error e) s.db pending (s.held pid) :=
  h.ends pid _ _ at_ s.db ((peers pid).refl _ _)

/-- No lock of one transaction conflicts with a lock of another. -/
theorem Heading.compatible (h : Heading apply peers post s) {p q : Pid} (other : p ≠ q) {r : R}
    {m m' : LockMode} (hp : (r, m) ∈ s.held p) (hq : (r, m') ∈ s.held q) :
    m.conflicts m' = false :=
  h.locked p q r m m' other (mem_held.mp hp) (mem_held.mp hq)

theorem Heading.finish (h : Heading apply peers post s) (pid : Pid)
    {outcome : Proc Db R W Q ε α} (ended : ∀ t pending, outcome ≠ .running t pending) :
    Heading apply peers post (s.finish pid outcome) := by
  refine ⟨h.locked.release pid, fun q t pending at_ => ?_⟩
  by_cases own : q = pid
  · subst own
    exact absurd (by simpa [State.finish] using at_) (ended t pending)
  · rw [finish_held s pid q own]
    exact h.ends q t pending (by simpa [State.finish, Function.update_of_ne own] using at_)

theorem Heading.goOn (h : Heading apply peers post s) (pid : Pid) {t : Tx Db R W Q ε α}
    {pending : List W} {new : Held R} (locked : Locked (new.map (Prod.mk pid) ++ s.locks))
    (own : ∀ fin, (peers pid).allows (new ++ s.held pid) s.db fin →
      Ends apply (peers pid) (post pid) t fin pending (new ++ s.held pid)) :
    Heading apply peers post (s.goOn pid t pending new) := by
  refine ⟨locked, fun q t' pending' at_ => ?_⟩
  by_cases same : q = pid
  · subst same
    have here : t = t' ∧ pending = pending' := by simpa [State.goOn] using at_
    obtain ⟨rfl, rfl⟩ := here
    rwa [goOn_held]
  · rw [goOn_held_other s pid q same]
    exact h.ends q t' pending' (by simpa [State.goOn, Function.update_of_ne same] using at_)

/-- The step lemma: statements keep everybody heading for the end, and so does a fair
    commit. -/
theorem Heading.step [DecidableEq R] (h : Heading apply peers post s) (e : Event)
    (fair : ∀ pid a pending, e = .step pid → s.proc pid = .running (.done a) pending →
      Fair apply peers s pid pending) :
    Heading apply peers post (s.step apply e) := by
  cases e with
  | abort pid =>
      simp only [State.step]
      split
      · exact h.finish pid (by simp)
      · exact h
  | step pid =>
      simp only [State.step]
      split
      · rename_i t pending at_
        have own := h.ends pid t pending at_
        cases t with
        | done a =>
            have quiet := fair pid a pending rfl at_
            have finished : Heading apply peers post (s.finish pid (.committed a)) :=
              h.finish pid (by simp)
            refine ⟨finished.locked, fun q t pending' there fin later => ?_⟩
            by_cases same : q = pid
            · subst same
              simp [State.finish] at there
            · have there' : s.proc q = .running t pending' := by
                simpa [State.finish, Function.update_of_ne same] using there
              have kept := finish_held s pid q same (.committed a)
              simp only [State.held] at kept later ⊢
              rw [kept] at later ⊢
              exact h.ends q t pending' there' fin
                ((peers q).trans (quiet q t pending' same there') later)
        | raise e => exact h.finish pid (by simp)
        | read q k =>
            exact h.goOn pid h.locked fun fin later => own fin later s.db later
        | lock q r m k =>
            simp only
            split
            · exact h.goOn pid (h.locked.grant ‹_›) fun fin later =>
                own fin ((peers pid).more later)
            · exact h
        | insert q r taken w k =>
            simp only
            split
            · rename_i found
              exact h.goOn pid h.locked fun fin later => (own fin later).1 s.db later found
            · rename_i free
              split
              · exact h.goOn pid (h.locked.grant ‹_›) fun fin later =>
                  (own fin ((peers pid).more later)).2 s.db later (Bool.eq_false_iff.mpr free)
              · exact h
        | write q w k => exact h.goOn pid h.locked fun fin later => own fin later
      · exact h

theorem Heading.initial (db : Db) (program : Pid → Tx Db R W Q ε α)
    (ends : ∀ pid fin, (peers pid).allows [] db fin →
      Ends apply (peers pid) (post pid) (program pid) fin [] []) :
    Heading apply peers post (State.initial db program) := by
  refine ⟨fun p q r m m' _ hp _ => (nomatch hp), fun pid t pending at_ => ?_⟩
  cases at_
  exact ends pid

end Transactions
