import PackageRegistry.Database.Compatibility
import PackageRegistry.Database.Growth
import PackageRegistry.Database.Ledger

/-! # The registry over whole runs

Imports and promotions begin with an empty registry, and their statements interleave in any way.
What each of them does when it commits keeps the registry representable and its ledger true.
-/

namespace PackageRegistry.Database

open Transactions Relational Runs

/-- The programs that write the registry -/
inductive Call where
  | import_registry (root : RegistryRoot)
  | promote (call : PromotionCall)

inductive Answer where
  | imported (report : Report)
  | promoted (result : PromotionResult)

def Call.program (s : Settings) : Call → Program Answer
  | .import_registry root => do
      let report ← Database.import_registry s root
      pure (.imported report)
  | .promote call => do
      let result ← Database.promote s call
      pure (.promoted result)

/-- How a call commits -/
inductive Commits (s : Settings) (x y : Db) : Call → Answer → Prop
  | imported {root : RegistryRoot} {modules : List Module} {report : Report}
      (loaded : load_registry s.lib root = .ok modules)
      (imported : Imported s.lib (modules.map canonical) y) :
      Commits s x y (.import_registry root) (.imported report)
  | promoted {call : PromotionCall} {result : PromotionResult} (settles : Settles s call x y result) :
      Commits s x y (.promote call) (.promoted result)

theorem program_leads {s : Settings} {fin : Db} (upheld : Upheld s fin) (call : Call) :
    Leading growth (Upheld s) (fun answer p => Commits s fin (upon fin p.pending) call answer ∧
        Upheld s (upon fin p.pending)) (call.program s) fin .start := by
  cases call with
  | import_registry root =>
      cases loaded : load_registry s.lib root with
      | error e =>
          have refused : Call.program s (.import_registry root) = raise (.registry e) := by
            rw [Call.program, Database.import_registry, loaded]
            rfl
          rw [refused]
          exact raise_leads
      | ok modules =>
          have imports := import_registry_leads loaded (fun _ upheld => upheld.consistent) upheld
          refine (imports.widen fun _ _ onward _ => onward.mono fun _ _ allowed => allowed.1).bind
            fun report p _ done => ?_
          obtain ⟨onward, imported⟩ := done
          exact pure_leads ⟨.imported loaded imported, imported.upheld upheld onward.allowed⟩
  | promote call =>
      exact (promote_leads (reliable s) upheld).bind fun result p _ settles =>
        pure_leads ⟨.promoted settles, settles.upheld upheld⟩

/-- What is known of a call when it commits -/
structure Committing (s : Settings) (call : Call) (answer : Answer) (fin : Db)
    (pending : List (Write Row)) (held : Held Lock) : Prop where
  commits : Commits s fin (upon fin pending) call answer
  upheld : Upheld s (upon fin pending)
  later : Later fin (upon fin pending)
  covered : AllCovered needed held pending
  minds : AllMind ofModule held pending

def heads (s : Settings) (call : Call) : Post Db Lock (Write Row) (Failure DatabaseException) Answer :=
  fun result fin pending held => Upheld s fin → ∀ answer, result = .ok answer →
    Committing s call answer fin pending held

theorem program_ends (s : Settings) (call : Call) (fin : Db) :
    Ends Database.apply (others (Upheld s)) (heads s call) (call.program s) fin [] [] := by
  by_cases upheld : Upheld s fin
  · refine (program_leads upheld call).ends (fun e pending held _ answer same => by cases same)
      fun answer p onward done _ answer' same => ?_
    cases same
    have progress := onward.progress progress_start
    exact ⟨done.1, done.2, onward.allowed, progress.covered, progress.minds⟩
  · exact ends_always (fun _ _ _ holds => (upheld holds).elim) _ _ _

/-! ## Runs -/

def noRows : Db := ⟨fun _ => ∅⟩

theorem noRows_row (T : TableName) (key : Text) : noRows.row T key = none :=
  Table.get_empty key

theorem noRows_upheld (s : Settings) : Upheld s noRows := by
  have absent : ∀ {T key row}, noRows.row T key ≠ some row := by
    intro T key row here
    rw [noRows_row] at here
    cases here
  refine ⟨⟨⟨fun T key row here => (absent here).elim, fun T key row here => (absent here).elim⟩,
    fun id m p here => (absent here).elim⟩, fun key e here => (absent here).elim,
    fun key v here => (absent here).elim, fun key key' e e' here => (absent here).elim,
    fun id channel => ?_⟩
  refine Register.traces_of_silent (silent_of_quiet (noRows_row _) id channel) fun r here => ?_
  rw [pointerAt, noRows_row] at here
  cases here

/-- The registry after these events -/
def registryAfter (s : Settings) (calls : Pid → Call) (events : List Event) : World Answer :=
  run (State.step Database.apply) (.initial noRows fun pid => (calls pid).program s) events

structure Running (s : Settings) (calls : Pid → Call) (w : World Answer) : Prop where
  heading : Heading Database.apply (fun _ => others (Upheld s)) (fun pid => heads s (calls pid)) w
  upheld : Upheld s w.db

section

variable {s : Settings} {calls : Pid → Call} {w : World Answer}

theorem Running.committing (h : Running s calls w) {pid : Pid} {answer : Answer}
    {pending : List (Write Row)} (at_ : w.proc pid = .running (.done answer) pending) :
    Committing s (calls pid) answer w.db pending (w.held pid) :=
  h.heading.post_of_done at_ h.upheld answer rfl

/-- What a step does: one call commits, or nothing changes. -/
theorem Running.step_cases (h : Running s calls w) (e : Event) :
    (∃ pid answer pending, w.proc pid = .running (.done answer) pending ∧
      Committing s (calls pid) answer w.db pending (w.held pid) ∧
      w.step Database.apply e =
        { w.finish pid (.committed answer) with db := upon w.db pending }) ∨
    (w.step Database.apply e).db = w.db ∧
      ∀ q a, (w.step Database.apply e).proc q = .committed a ↔ w.proc q = .committed a := by
  rcases w.step_cases Database.apply e with ⟨pid, answer, pending, -, at_, stepped⟩ | same
  · exact .inl ⟨pid, answer, pending, at_, h.committing at_, stepped⟩
  · exact .inr same

theorem Running.step (h : Running s calls w) (e : Event) :
    Running s calls (w.step Database.apply e) := by
  refine ⟨wardens_step h.heading e (fun pid answer pending post => ?_)
    fun pid answer pending q _ at_ _ => ?_, ?_⟩
  · have committing := post h.upheld answer rfl
    exact ⟨committing.covered, committing.minds⟩
  · exact ⟨(h.committing at_).later, fun _ => h.upheld⟩
  · rcases h.step_cases e with ⟨pid, answer, pending, -, committing, stepped⟩ | ⟨same, -⟩
    · rw [stepped]
      exact committing.upheld
    · rw [same]
      exact h.upheld

theorem Running.later (h : Running s calls w) (e : Event) :
    Later w.db (w.step Database.apply e).db := by
  rcases h.step_cases e with ⟨pid, answer, pending, -, committing, stepped⟩ | ⟨same, -⟩
  · rw [stepped]
    exact committing.later
  · rw [same]
    exact growth.refl w.db

end

theorem running_after (s : Settings) (calls : Pid → Call) (events : List Event) :
    Running s calls (registryAfter s calls events) :=
  run_invariant (fun _ e h => h.step e)
    ⟨.initial _ _ fun pid fin _ => program_ends s (calls pid) fin, noRows_upheld s⟩ events

theorem later_after (s : Settings) (calls : Pid → Call) (events more : List Event) :
    Later (registryAfter s calls events).db (registryAfter s calls (events ++ more)).db := by
  rw [registryAfter, registryAfter, run_append]
  exact run_relation (I := Running s calls) (R := fun w w' => Later w.db w'.db)
    (fun _ e h => h.step e) (fun w => growth.refl w.db) (fun first second => growth.trans first second)
    (fun _ e h => h.later e) (running_after s calls events) more

/-! ## The published history -/

/-- What happens between two times -/
structure Progresses (lib : Library) (x y : Db) : Prop where
  grows : Grows (projection x) (projection y)
  immutable : validate_immutability lib (projection y) (projection x) = .ok ()
  forward : MovesForward x y

/-- The answer of a promotion is that of an event. Its first one says that it is published, and
    that the pointer has gone on from the expected revision. -/
structure AnswerOf (call : PromotionCall) (result : PromotionResult) (db : Db) : Prop where
  event : ∃ e, db.row .promotion_events call.intent.idempotency_key = some e ∧
    e.result = { result with status := "published" }
  named : result.promotion_id = call.intent.idempotency_key
  revision : result.status = "published" →
    (result.channel_revision : Int) = call.intent.expected_channel_revision + 1

/-- Two results are in each other's way. -/
def Clash (result result' : PromotionResult) : Prop :=
  result.promotion_id = result'.promotion_id ∨
    result.module = result'.module ∧ result.version = result'.version ∨
    result.module = result'.module ∧ result.channel = result'.channel ∧
      result.channel_revision = result'.channel_revision

structure Answered (calls : Pid → Call) (w : World Answer) : Prop where
  answers : ∀ pid result, w.proc pid = .committed (.promoted result) →
    ∃ call, calls pid = .promote call ∧ AnswerOf call result w.db
  once : ∀ pid pid' result result', w.proc pid = .committed (.promoted result) →
    w.proc pid' = .committed (.promoted result') → result.status = "published" →
    result'.status = "published" → result.promotion_id = result'.promotion_id → pid = pid'

section

variable {s : Settings} {calls : Pid → Call} {w : World Answer} {x y : Db} {call : PromotionCall}
  {result : PromotionResult}

theorem AnswerOf.later (h : AnswerOf call result x) (later : Later x y) : AnswerOf call result y := by
  obtain ⟨e, here, told⟩ := h.event
  obtain ⟨_, there, rfl⟩ := later.evolved .promotion_events _ e here
  exact ⟨⟨_, there, told⟩, h.named, h.revision⟩

theorem Settles.answers (h : Settles s call x y result) (upheld : Upheld s x) :
    AnswerOf call result y := by
  cases h with
  | replayed here =>
      rename_i previous
      have published := (upheld.ledger.recorded _ previous here).tells.status
      have named := upheld.consistent.linked.keyed .promotion_events _ previous here
      refine ⟨⟨previous, here, ?_⟩, named.symm, fun status => by simp at status⟩
      rw [← published]
  | published bound named at_ expected promotes =>
      refine ⟨⟨_, promotes.event, rfl⟩, rfl, fun _ => ?_⟩
      rw [← expected]
      rfl

/-- Whoever publishes finds no event. -/
theorem Settles.fresh (h : Settles s call x y result) (published : result.status = "published") :
    x.row .promotion_events call.intent.idempotency_key = none := by
  cases h with
  | replayed here => simp at published
  | published bound named at_ expected promotes => exact promotes.fresh

theorem Answered.step (h : Answered calls w) (running : Running s calls w) (e : Event) :
    Answered calls (w.step Database.apply e) := by
  have later := running.later e
  rcases running.step_cases e with ⟨pid, answer, pending, at_, committing, stepped⟩ | ⟨same, kept⟩
  · -- one call commits, and the others are where they were
    have cases_ : ∀ q result, (w.step Database.apply e).proc q = .committed (.promoted result) →
        w.proc q = .committed (.promoted result) ∨ q = pid ∧ answer = .promoted result := by
      intro q result ended
      rw [stepped] at ended
      by_cases own : q = pid
      · subst own
        exact .inr ⟨rfl, by simpa [State.finish] using ended⟩
      · exact .inl (by simpa [State.finish, Function.update_of_ne own] using ended)
    have settled : ∀ result, answer = .promoted result →
        ∃ call, calls pid = .promote call ∧ Settles s call w.db (upon w.db pending) result := by
      rintro result rfl
      have commits := committing.commits
      generalize calls pid = call at commits
      cases commits with
      | promoted settles => exact ⟨_, rfl, settles⟩
    -- an answer that is there keeps others from publishing under its key
    have apart : ∀ q result result', w.proc q = .committed (.promoted result) →
        answer = .promoted result' → result'.status = "published" →
        result.promotion_id ≠ result'.promotion_id := by
      intro q result result' ended answered published same
      obtain ⟨call, -, answers⟩ := h.answers q result ended
      obtain ⟨call', -, settles⟩ := settled result' answered
      obtain ⟨e, here, -⟩ := answers.event
      have fresh := settles.fresh published
      rw [← (settles.answers running.upheld).named, ← same, answers.named, here] at fresh
      cases fresh
    refine ⟨fun q result ended => ?_, fun q q' result result' ended ended' published published' same => ?_⟩
    · rcases cases_ q result ended with before | ⟨rfl, answered⟩
      · obtain ⟨call, isCall, answers⟩ := h.answers q result before
        exact ⟨call, isCall, answers.later later⟩
      · obtain ⟨call, isCall, settles⟩ := settled result answered
        refine ⟨call, isCall, ?_⟩
        rw [stepped]
        exact settles.answers running.upheld
    · rcases cases_ q result ended with before | ⟨rfl, answered⟩
      · rcases cases_ q' result' ended' with before' | ⟨rfl, answered'⟩
        · exact h.once q q' result result' before before' published published' same
        · exact (apart q result result' before answered' published' same).elim
      · rcases cases_ q' result' ended' with before' | ⟨rfl, -⟩
        · exact (apart q' result' result before' answered published same.symm).elim
        · rfl
  · refine ⟨fun q result ended => ?_, fun q q' result result' ended ended' => ?_⟩
    · obtain ⟨call, isCall, answers⟩ := h.answers q result ((kept q _).mp ended)
      exact ⟨call, isCall, answers.later later⟩
    · exact h.once q q' result result' ((kept q _).mp ended) ((kept q' _).mp ended')

end

theorem answered_after (s : Settings) (calls : Pid → Call) (events : List Event) :
    Answered calls (registryAfter s calls events) := by
  refine (run_invariant (I := fun w => Answered calls w ∧ Running s calls w)
    (fun _ e h => ⟨h.1.step h.2 e, h.2.step e⟩) ⟨⟨?_, ?_⟩, running_after s calls []⟩ events).1
  · intro pid result ended
    cases ended
  · intro pid pid' result result' ended
    cases ended

/-- Of the promotions that are in each other's way, one is published. -/
def ApprovedOnce (w : World Answer) : Prop :=
  ∀ pid pid' result result', w.proc pid = .committed (.promoted result) →
    w.proc pid' = .committed (.promoted result') → result.status = "published" →
    result'.status = "published" → Clash result result' → pid = pid'

theorem Answered.approvedOnce {s : Settings} {calls : Pid → Call} {w : World Answer}
    (h : Answered calls w) (upheld : Upheld s w.db) : ApprovedOnce w := by
  intro pid pid' result result' ended ended' published published' clash
  refine h.once pid pid' result result' ended ended' published published' ?_
  have recorded : ∀ pid result, w.proc pid = .committed (.promoted result) →
      result.status = "published" → ∃ key e, w.db.row .promotion_events key = some e ∧
        e.result = result ∧ Tells e := by
    intro pid result ended published
    obtain ⟨call, -, answers⟩ := h.answers pid result ended
    obtain ⟨e, here, told⟩ := answers.event
    rw [← published] at told
    exact ⟨_, e, here, told, (upheld.ledger.recorded _ e here).tells⟩
  obtain ⟨key, e, here, rfl, tells⟩ := recorded pid result ended published
  obtain ⟨key', e', here', rfl, tells'⟩ := recorded pid' result' ended' published'
  have same : e.module_id = e'.module_id → e.version = e'.version →
      e.result.promotion_id = e'.result.promotion_id := fun sameModule sameVersion => by
    rw [upheld.ledger.once key key' e e' here here' sameModule sameVersion]
  rcases clash with sameId | ⟨sameModule, sameVersion⟩ | ⟨sameModule, sameChannel, sameRevision⟩
  · exact sameId
  · rw [tells.module, tells'.module] at sameModule
    rw [tells.version, tells'.version] at sameVersion
    exact same sameModule sameVersion
  · -- one entry of the journal has this revision
    rw [tells.module, tells'.module] at sameModule
    rw [tells.channel, tells'.channel] at sameChannel
    obtain ⟨values, traces⟩ := upheld.ledger.journal e.module_id e.channel
    have entry := traces.unique ⟨key, e, here, rfl, rfl, rfl⟩
      ⟨key', e', here', sameModule.symm, sameChannel.symm, rfl⟩ sameRevision
    exact same sameModule (congrArg (·.value) entry)

/-- An import that commits in this step leaves the source tree as a whole, which is then served
    with the index that is built of it. It comes before every promotion. -/
def ImportsWhole (s : Settings) (calls : Pid → Call) (w w' : World Answer) : Prop :=
  ∀ pid report, w'.proc pid = .committed (.imported report) →
    w.proc pid ≠ .committed (.imported report) → ∃ root modules index,
      calls pid = .import_registry root ∧ load_registry s.lib root = .ok modules ∧
      projection w'.db = modules.map canonical ∧ build_index s.lib modules = .ok index ∧
      exec Database.apply (RegistryCompatibilityService.index s) w'.db = .ok (index, w'.db) ∧
      ∀ q result, w'.proc q ≠ .committed (.promoted result)

end PackageRegistry.Database
