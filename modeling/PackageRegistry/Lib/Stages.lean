import PackageRegistry.Lib.Hindsight

/-! # Requests of several transactions

A request runs one transaction after another, and which one comes next depends on how the
last one has ended. What has been committed is kept in a log, latest first.
-/

namespace Transactions

variable {Db R W Q ε α : Type}

/-- A transaction, and what follows its end, if anything. -/
inductive Job (Db R W Q ε α : Type) where
  | stage (tx : Tx Db R W Q ε α) (next : Except ε α → Option (Job Db R W Q ε α))

def Job.tx : Job Db R W Q ε α → Tx Db R W Q ε α
  | .stage tx _ => tx

def Job.next : Job Db R W Q ε α → Except ε α → Option (Job Db R W Q ε α)
  | .stage _ next => next

/-- A request of one transaction -/
def Job.only (tx : Tx Db R W Q ε α) : Job Db R W Q ε α := .stage tx fun _ => none

structure Service (Db R W Q ε α : Type) where
  state : State Db R W Q ε α
  /-- What follows the transaction that a request runs now. -/
  next : Pid → Except ε α → Option (Job Db R W Q ε α)
  log : List (Pid × α)

namespace Service

def initial (db : Db) (job : Pid → Job Db R W Q ε α) : Service Db R W Q ε α where
  state := .initial db fun pid => (job pid).tx
  next pid := (job pid).next
  log := []

/-- The next transaction of a request begins, if there is one. -/
def follow (s : Service Db R W Q ε α) (pid : Pid) (result : Except ε α) : Service Db R W Q ε α :=
  match s.next pid result with
  | none => { s with next := Function.update s.next pid fun _ => none }
  | some job =>
      { s with
          state := { s.state with proc := Function.update s.state.proc pid (.running job.tx []) }
          next := Function.update s.next pid job.next }

def step [DecidableEq R] (apply : Db → W → Db) (s : Service Db R W Q ε α) (e : Event) :
    Service Db R W Q ε α :=
  let after := { s with state := s.state.step apply e }
  match e with
  | .abort _ => after
  | .step pid =>
      match s.state.proc pid with
      | .running (.done a) _ => { after with log := (pid, a) :: s.log }.follow pid (.ok a)
      | .running (.raise failure) _ => after.follow pid (.error failure)
      | _ => after

/-- What a request has committed, latest first -/
def results (s : Service Db R W Q ε α) (pid : Pid) : List α :=
  (s.log.filter fun entry => entry.1 == pid).map (·.2)

@[simp] theorem follow_db (s : Service Db R W Q ε α) (pid : Pid) (result : Except ε α) :
    (s.follow pid result).state.db = s.state.db := by
  unfold follow
  split <;> rfl

@[simp] theorem follow_log (s : Service Db R W Q ε α) (pid : Pid) (result : Except ε α) :
    (s.follow pid result).log = s.log := by
  unfold follow
  split <;> rfl

/-- What a step can do to the database and to the log: one transaction commits, or nothing
    changes. -/
theorem step_cases [DecidableEq R] (apply : Db → W → Db) (s : Service Db R W Q ε α) (e : Event) :
    (∃ pid a pending, e = .step pid ∧ s.state.proc pid = .running (.done a) pending ∧
      (s.step apply e).state.db = view apply s.state.db pending ∧
      (s.step apply e).log = (pid, a) :: s.log) ∨
    (s.step apply e).state.db = s.state.db ∧ (s.step apply e).log = s.log := by
  rcases s.state.step_cases apply e with ⟨pid, a, pending, rfl, at_, stepped⟩ | ⟨same, -⟩
  · refine .inl ⟨pid, a, pending, rfl, at_, ?_⟩
    simp only [step, at_, follow_db, follow_log, stepped, and_self]
  · cases e with
    | abort pid => exact .inr ⟨same, rfl⟩
    | step pid =>
        simp only [step]
        split
        · rename_i a pending at_
          refine .inl ⟨pid, a, pending, rfl, at_, ?_⟩
          simp only [follow_db, follow_log, and_true]
          simp only [State.step, at_]
        · exact .inr ⟨by simpa using same, by simp⟩
        · exact .inr ⟨same, rfl⟩

/-- Every request has one transaction: what is in the log has ended. -/
structure Single (s : Service Db R W Q ε α) : Prop where
  last : ∀ pid result, s.next pid result = none
  committed : ∀ pid a, (pid, a) ∈ s.log → s.state.proc pid = .committed a

theorem follow_last {s : Service Db R W Q ε α} {pid : Pid} {result : Except ε α}
    (last : ∀ pid result, s.next pid result = none) :
    (s.follow pid result).state = s.state ∧ ∀ q result', (s.follow pid result).next q result' = none := by
  unfold follow
  rw [last pid result]
  refine ⟨rfl, fun q result' => ?_⟩
  by_cases same : q = pid
  · simp [same]
  · simpa [Function.update_of_ne same] using last q result'

theorem Single.initial (db : Db) (program : Pid → Tx Db R W Q ε α) :
    (Service.initial db fun pid => Job.only (program pid)).Single :=
  ⟨fun _ _ => rfl, fun _ _ mem => by cases mem⟩

theorem Single.step [DecidableEq R] {apply : Db → W → Db} {s : Service Db R W Q ε α} (h : s.Single)
    (e : Event) : (s.step apply e).Single := by
  have stays : ∀ pid a, (pid, a) ∈ s.log → (s.state.step apply e).proc pid = .committed a :=
    fun pid a mem => committed_stays (h.committed pid a mem)
  cases e with
  | abort pid => exact ⟨h.last, stays⟩
  | step pid =>
      simp only [Service.step]
      split
      · rename_i a pending at_
        obtain ⟨same, last⟩ := @follow_last _ _ _ _ _ _
          { s with state := s.state.step apply (.step pid), log := (pid, a) :: s.log } pid (.ok a) h.last
        refine ⟨last, fun q b mem => ?_⟩
        rw [same]
        rw [follow_log] at mem
        rcases List.mem_cons.mp mem with new | old
        · obtain ⟨rfl, rfl⟩ : q = pid ∧ b = a := by simpa using new
          simp [State.step, at_, State.finish]
        · exact stays q b old
      · rename_i failure pending at_
        obtain ⟨same, last⟩ := @follow_last _ _ _ _ _ _
          { s with state := s.state.step apply (.step pid) } pid (.error failure) h.last
        refine ⟨last, fun q b mem => ?_⟩
        rw [same]
        rw [follow_log] at mem
        exact stays q b mem
      · exact ⟨h.last, stays⟩

end Service

/-! ## What holds along a request -/

/-- The results of a request when one of its transactions has ended -/
def extend (prior : List α) : Except ε α → List α
  | .ok a => a :: prior
  | .error _ => prior

section

variable (apply : Db → W → Db) (peers : Peers Db R) (post : List α → Post Db R W ε α)

/-- Every transaction of a request ends with what is due after the results before it. -/
inductive JobEnds : List α → Job Db R W Q ε α → Prop where
  | stage {prior : List α} {tx : Tx Db R W Q ε α} {next : Except ε α → Option (Job Db R W Q ε α)}
      (ends : ∀ fin, Ends apply peers (post prior) tx fin [] [])
      (rest : ∀ result job, next result = some job → JobEnds (extend prior result) job) :
      JobEnds prior (.stage tx next)

end

section

variable {apply : Db → W → Db} {peers : Peers Db R} {post : List α → Post Db R W ε α}
  {prior : List α}

theorem JobEnds.tx {job : Job Db R W Q ε α} (h : JobEnds apply peers post prior job) (fin : Db) :
    Ends apply peers (post prior) job.tx fin [] [] := by
  cases h with
  | stage ends _ => exact ends fin

theorem JobEnds.next {job : Job Db R W Q ε α} (h : JobEnds apply peers post prior job)
    {result : Except ε α} {job' : Job Db R W Q ε α} (follows : job.next result = some job') :
    JobEnds apply peers post (extend prior result) job' := by
  cases h with
  | stage _ rest => exact rest result job' follows

theorem JobEnds.only {tx : Tx Db R W Q ε α}
    (ends : ∀ fin, Ends apply peers (post prior) tx fin [] []) :
    JobEnds apply peers post prior (.only tx) :=
  .stage ends fun _ _ follows => by cases follows

end

/-! ## Steps of the system -/

section

variable {apply : Db → W → Db} {peers : Pid → Peers Db R}

theorem Heading.congr {post post' : Pid → Post Db R W ε α} {s : State Db R W Q ε α}
    (h : Heading apply peers post s)
    (same : ∀ pid t pending, s.proc pid = .running t pending → post' pid = post pid) :
    Heading apply peers post' s := by
  refine ⟨h.locked, fun pid t pending at_ fin later => ?_⟩
  rw [same pid t pending at_]
  exact h.ends pid t pending at_ fin later

/-- A request that holds no locks begins its next transaction. -/
theorem Heading.start {post : Pid → Post Db R W ε α} {s : State Db R W Q ε α}
    (h : Heading apply peers post s) {pid : Pid} {t : Tx Db R W Q ε α} (free : s.held pid = [])
    (own : ∀ fin, Ends apply (peers pid) (post pid) t fin [] []) :
    Heading apply peers post { s with proc := Function.update s.proc pid (.running t []) } := by
  refine ⟨h.locked, fun q t' pending at_ fin later => ?_⟩
  by_cases same : q = pid
  · subst same
    have here : t = t' ∧ [] = pending := by simpa using at_
    obtain ⟨rfl, rfl⟩ := here
    have none_held : ({ s with proc := Function.update s.proc q (.running t []) } : State ..).held q =
        [] := free
    rw [none_held]
    exact own fin
  · exact h.ends q t' pending (by simpa [Function.update_of_ne same] using at_) fin later

theorem finish_held_none (s : State Db R W Q ε α) (pid : Pid) (outcome : Proc Db R W Q ε α) :
    (s.finish pid outcome).held pid = [] := by
  simp [State.finish, State.held, release]

variable (apply peers)

/-- Every request is on its way through its transactions. -/
structure Serving (post : Pid → List α → Post Db R W ε α) (s : Service Db R W Q ε α) : Prop where
  heading : Heading apply peers (fun pid => post pid (s.results pid)) s.state
  next : ∀ pid result job, s.next pid result = some job →
    JobEnds apply (peers pid) (post pid) (extend (s.results pid) result) job

variable {apply peers} {post : Pid → List α → Post Db R W ε α} {s : Service Db R W Q ε α}

theorem Serving.post_of_done (h : Serving apply peers post s) {pid : Pid} {a : α} {pending : List W}
    (at_ : s.state.proc pid = .running (.done a) pending) :
    post pid (s.results pid) (.ok a) s.state.db pending (s.state.held pid) :=
  h.heading.post_of_done at_

/-- A transaction has ended, and the next one begins, if there is one. -/
theorem Serving.follow {pid : Pid} {result : Except ε α}
    (heading : Heading apply peers (fun pid => post pid (s.results pid)) s.state)
    (others : ∀ q, q ≠ pid → ∀ result job, s.next q result = some job →
      JobEnds apply (peers q) (post q) (extend (s.results q) result) job)
    (own : ∀ job, s.next pid result = some job →
      JobEnds apply (peers pid) (post pid) (s.results pid) job)
    (free : s.state.held pid = []) : Serving apply peers post (s.follow pid result) := by
  unfold Service.follow
  split
  · refine ⟨heading, fun q result' job' next => ?_⟩
    by_cases same : q = pid
    · simp [same] at next
    · exact others q same result' job' (by simpa [Function.update_of_ne same] using next)
  · rename_i job follows
    refine ⟨heading.start free fun fin => (own job follows).tx fin, fun q result' job' next => ?_⟩
    by_cases same : q = pid
    · subst same
      exact (own job follows).next (by simpa using next)
    · exact others q same result' job' (by simpa [Function.update_of_ne same] using next)

theorem results_cons (s : Service Db R W Q ε α) (state : State Db R W Q ε α) (pid q : Pid) (a : α) :
    ({ s with state := state, log := (pid, a) :: s.log } : Service ..).results q =
      if q = pid then a :: s.results q else s.results q := by
  by_cases same : q = pid
  · subst same
    simp [Service.results]
  · simp [Service.results, same, Ne.symm same]

/-- The step lemma: whatever a request does, everybody stays on the way, as long as commits
    are fair. -/
theorem Serving.step [DecidableEq R] (h : Serving apply peers post s) (e : Event)
    (fair : ∀ pid a pending, e = .step pid → s.state.proc pid = .running (.done a) pending →
      Fair apply peers s.state pid pending) : Serving apply peers post (s.step apply e) := by
  have heading := h.heading.step e fair
  cases e with
  | abort pid => exact ⟨heading, h.next⟩
  | step pid =>
      simp only [Service.step]
      split
      · rename_i a pending at_
        have ended : s.state.step apply (.step pid) =
            { s.state.finish pid (.committed a) with db := view apply s.state.db pending } := by
          simp only [State.step, at_]
        refine Serving.follow (heading.congr fun q t pending' running => ?_) (fun q other => ?_)
          (fun job follows => ?_) ?_
        · have other : q ≠ pid := by
            rintro rfl
            simp [ended, State.finish] at running
          rw [results_cons, if_neg other]
        · rw [results_cons, if_neg other]
          exact h.next q
        · rw [results_cons, if_pos rfl]
          exact h.next pid (.ok a) job follows
        · simp only [ended]
          exact finish_held_none s.state pid (.committed a)
      · rename_i failure pending at_
        have ended : s.state.step apply (.step pid) = s.state.finish pid (.raised failure) := by
          simp only [State.step, at_]
        refine Serving.follow heading (fun q _ => h.next q) (fun job follows => ?_) ?_
        · exact h.next pid (.error failure) job follows
        · simp only [ended]
          exact finish_held_none s.state pid (.raised failure)
      · exact ⟨heading, h.next⟩

theorem Serving.initial (db : Db) (job : Pid → Job Db R W Q ε α)
    (ends : ∀ pid, JobEnds apply (peers pid) (post pid) [] (job pid)) :
    Serving apply peers post (Service.initial db job) :=
  ⟨.initial db _ fun pid fin _ => (ends pid).tx fin,
    fun pid _ _ follows => (ends pid).next follows⟩

end

end Transactions
