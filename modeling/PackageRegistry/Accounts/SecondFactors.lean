import PackageRegistry.Accounts.FactorCalls
import PackageRegistry.Accounts.Superusers

/-! # Second factors are used once

Along a run of the calls that use up second factors, the rows keep what the log has seen:
a challenge that was completed is used, and counts its failed attempts; a method has
reached every time step that was accepted; a recovery code that was accepted is used.
-/

namespace PackageRegistry.Accounts

open Transactions Relational Runs
open PackageRegistry.Auth (UserId Time AuthError)

abbrev FactorService := Service Db Lock (Write Row) Sql (Failure AuthError) FactorDone

def factorService (env : Environment) (call : Pid → FactorCall) (db : Db) : FactorService :=
  .initial db fun pid => .only ((call pid).program env)

/-! ## What the log has seen, latest first -/

abbrev FactorLog := List (Pid × FactorDone)

def completedChallenges (log : FactorLog) : List Text := log.filterMap fun entry => entry.2.completed

/-- The wrong codes for this challenge -/
def failures (log : FactorLog) (id : Text) : Nat := (log.filterMap fun entry => entry.2.failed).count id

def FactorDone.counter (method_id : Text) (done : FactorDone) : Option Int :=
  match done.consumed with
  | some (method_id', .totp counter) => if method_id' = method_id then some counter else none
  | _ => none

/-- The time steps for which a code of this method was accepted -/
def acceptedCounters (method_id : Text) (log : FactorLog) : List Int :=
  log.filterMap fun entry => entry.2.counter method_id

def FactorDone.code : FactorDone → Option Text := fun done =>
  match done.consumed with
  | some (_, .recovery code_id) => some code_id
  | _ => none

def acceptedCodes (log : FactorLog) : List Text := log.filterMap fun entry => entry.2.code

theorem FactorDone.consumed_of_counter {method_id : Text} {done : FactorDone} {counter : Int}
    (h : done.counter method_id = some counter) : done.consumed = some (method_id, .totp counter) := by
  unfold FactorDone.counter at h
  split at h
  · split at h
    · rename_i consumed same
      rw [consumed, same, Option.some.inj h]
    · cases h
  · cases h

theorem FactorDone.consumed_of_code {done : FactorDone} {code_id : Text} (h : done.code = some code_id) :
    ∃ method_id, done.consumed = some (method_id, .recovery code_id) := by
  unfold FactorDone.code at h
  split at h
  · rename_i consumed
    exact ⟨_, by rw [consumed, Option.some.inj h]⟩
  · cases h

/-! ## Challenges -/

def OpenFor (db : Db) (key : Text) (user_id : UserId) : Prop :=
  ∃ challenge, db.row .auth_mfa_challenges key = some challenge ∧ challenge.openLogin = true ∧
    challenge.user_id = user_id

/-- A user has at most one login challenge that is open. -/
def OneOpen (db : Db) : Prop :=
  ∀ user_id key key', OpenFor db key user_id → OpenFor db key' user_id → key = key'

structure ChallengesOnce (env : Environment) (db : Db) (log : FactorLog) : Prop where
  one_open : OneOpen db
  used : ∀ id ∈ completedChallenges log, ∃ challenge, db.row .auth_mfa_challenges id = some challenge ∧
    challenge.used_at.isSome = true
  once : (completedChallenges log).Nodup
  attempts : ∀ id, failures log id = 0 ∨ failures log id ≤ env.mfa_max_attempts ∧
    ∃ challenge, db.row .auth_mfa_challenges id = some challenge ∧
      failures log id ≤ challenge.attempt_count

section

variable {env : Environment} {call : FactorCall} {done : FactorDone} {db : Db}
  {pending : List (Write Row)} {held : Held Lock} {log : FactorLog} {pid : Pid}

theorem openAfter_iff {key : Text} {user_id : UserId} :
    OpenFor (view Database.apply db pending) key user_id ↔ OpenAfter db pending key user_id := by
  simp only [OpenFor, OpenAfter, view_row]

theorem FactorEnd.grows (h : FactorEnd env call done db pending held) {id : Text}
    {challenge : AuthMfaChallenge} (here : db.row .auth_mfa_challenges id = some challenge) :
    ∃ challenge', (view Database.apply db pending).row .auth_mfa_challenges id = some challenge' ∧
      challenge.Grows challenge' := by
  obtain ⟨challenge', there, grows⟩ := (h.far .auth_mfa_challenges id).1 challenge here
  exact ⟨challenge', (view_row ..).trans there, grows⟩

/-- A challenge that is open after a call was open before, unless the call has added it. -/
theorem FactorEnd.was_open (h : FactorEnd env call done db pending held) {key : Text} {user_id : UserId}
    (opened : OpenAfter db pending key user_id) :
    call.adds .auth_mfa_challenges key ∨ OpenFor db key user_id := by
  obtain ⟨challenge', there, still, mine⟩ := opened
  obtain ⟨persists, added⟩ := h.far .auth_mfa_challenges key
  refine added.imp_right fun gone => ?_
  cases here : db.row .auth_mfa_challenges key with
  | none =>
      rw [gone here] at there
      cases there
  | some challenge =>
      obtain ⟨row, after, grows⟩ := persists challenge here
      obtain rfl := Option.some.inj (there.symm.trans after)
      exact ⟨challenge, here, grows.still_open still, grows.user_id.symm.trans mine⟩

theorem OneOpen.commit (one_open : OneOpen db) (h : FactorEnd env call done db pending held) :
    OneOpen (view Database.apply db pending) := by
  intro user_id key key' opened opened'
  rw [openAfter_iff] at opened opened'
  rcases h.was_open opened with added | before
  · exact (h.alone key added user_id opened key' opened').symm
  · rcases h.was_open opened' with added' | before'
    · exact h.alone key' added' user_id opened' key opened
    · exact one_open user_id key key' before before'

theorem failures_cons (id : Text) : failures ((pid, done) :: log) id =
    failures log id + if done.failed = some id then 1 else 0 := by
  cases failed : done.failed with
  | none => simp [failures, failed]
  | some id' => simp [failures, failed, List.count_cons]

theorem ChallengesOnce.commit (before : ChallengesOnce env db log)
    (h : FactorEnd env call done db pending held) :
    ChallengesOnce env (view Database.apply db pending) ((pid, done) :: log) := by
  have still_used : ∀ id ∈ completedChallenges log, ∃ challenge,
      (view Database.apply db pending).row .auth_mfa_challenges id = some challenge ∧
        challenge.used_at.isSome = true := by
    intro id mem
    obtain ⟨challenge, here, used⟩ := before.used id mem
    obtain ⟨challenge', there, grows⟩ := h.grows here
    exact ⟨challenge', there, grows.used used⟩
  refine ⟨before.one_open.commit h, fun id mem => ?_, ?_, fun id => ?_⟩
  · cases completed : done.completed with
    | none => exact still_used id (by simpa [completedChallenges, completed] using mem)
    | some new =>
        have either : id = new ∨ id ∈ completedChallenges log := by
          simpa [completedChallenges, completed] using mem
        rcases either with rfl | earlier
        · obtain ⟨challenge, there, used⟩ := (h.completes id completed).2
          exact ⟨challenge, (view_row ..).trans there, used⟩
        · exact still_used id earlier
  · cases completed : done.completed with
    | none => simpa [completedChallenges, completed] using before.once
    | some new =>
        have fresh : new ∉ completedChallenges log := by
          intro again
          obtain ⟨challenge, here, used⟩ := before.used new again
          obtain ⟨challenge', here', unused⟩ := (h.completes new completed).1
          obtain rfl := Option.some.inj (here.symm.trans here')
          simp [unused] at used
        have all := List.nodup_cons.mpr ⟨fresh, before.once⟩
        simpa [completedChallenges, completed] using all
  · rw [failures_cons]
    split
    · rename_i failed
      obtain ⟨challenge, challenge', here, below, there, counted⟩ := h.fails id failed
      refine .inr ?_
      rcases before.attempts id with none_before | ⟨-, challenge'', here'', bound⟩
      · exact ⟨by omega, challenge', (view_row ..).trans there, by omega⟩
      · obtain rfl := Option.some.inj (here.symm.trans here'')
        exact ⟨by omega, challenge', (view_row ..).trans there, by omega⟩
    · refine (before.attempts id).imp_right fun ⟨bound, challenge, here, counted⟩ => ?_
      obtain ⟨challenge', there, grows⟩ := h.grows here
      exact ⟨bound, challenge', there, Nat.le_trans counted grows.attempts⟩

/-! ## Time steps -/

structure CountersIncrease (start db : Db) (log : FactorLog) : Prop where
  enrolled : ∀ id method, db.row .user_mfa_methods id = some method →
    ∃ first, start.row .user_mfa_methods id = some first ∧
      method.secret_encrypted = first.secret_encrypted
  reached : ∀ id, ∀ counter ∈ acceptedCounters id log, ∀ method,
    db.row .user_mfa_methods id = some method → method.is_enabled = true ∧
      ∃ last, method.last_used_counter = some last ∧ counter ≤ last
  increasing : ∀ id, (acceptedCounters id log).Pairwise (· > ·)

theorem CountersIncrease.commit {start : Db} (before : CountersIncrease start db log)
    (h : FactorEnd env call done db pending held) :
    CountersIncrease start (view Database.apply db pending) ((pid, done) :: log) := by
  have still_reached : ∀ id, ∀ counter ∈ acceptedCounters id log, ∀ method,
      rowAfter pending .user_mfa_methods id (db.row .user_mfa_methods id) = some method →
      method.is_enabled = true ∧ ∃ last, method.last_used_counter = some last ∧ counter ≤ last := by
    intro id counter mem method' there
    obtain ⟨method, here, grows⟩ := h.far .user_mfa_methods id method' there
    obtain ⟨enabled, last, same, le⟩ := before.reached id counter mem method here
    obtain ⟨last', same', le'⟩ := grows.counter enabled last same
    exact ⟨grows.enabled enabled, last', same', Int.le_trans le le'⟩
  refine ⟨fun id method there => ?_, fun id counter mem method there => ?_, fun id => ?_⟩
  · rw [view_row] at there
    obtain ⟨method', here, grows⟩ := h.far .user_mfa_methods id method there
    obtain ⟨first, was, same⟩ := before.enrolled id method' here
    exact ⟨first, was, grows.secret.trans same⟩
  · rw [view_row] at there
    cases accepted : done.counter id with
    | none => exact still_reached id counter (by simpa [acceptedCounters, accepted] using mem) method there
    | some new =>
        have either : counter = new ∨ counter ∈ acceptedCounters id log := by
          simpa [acceptedCounters, accepted] using mem
        rcases either with rfl | earlier
        · obtain ⟨-, -, -, after⟩ := h.consumes id _ (FactorDone.consumed_of_counter accepted)
          exact after method there
        · exact still_reached id counter earlier method there
  · cases accepted : done.counter id with
    | none => simpa [acceptedCounters, accepted] using before.increasing id
    | some new =>
        -- the method has reached every earlier time step, and `new` is later than that
        obtain ⟨method, here, later, -⟩ := h.consumes id _ (FactorDone.consumed_of_counter accepted)
        have above : ∀ counter ∈ acceptedCounters id log, new > counter := by
          intro counter mem
          obtain ⟨enabled, last, same, le⟩ := before.reached id counter mem method here
          exact Int.lt_of_le_of_lt le (later enabled last same)
        have all := List.pairwise_cons.mpr ⟨above, before.increasing id⟩
        simpa [acceptedCounters, accepted] using all

end

/-! ## Recovery codes -/

/-- The ids of new recovery codes are new: no other call uses them, and no row had them. -/
structure FreshCodes (call : Pid → FactorCall) (start : Db) : Prop where
  distinct : ∀ pid pid' id, (call pid).adds .user_mfa_recovery_codes id →
    (call pid').adds .user_mfa_recovery_codes id → pid = pid'
  unused : ∀ pid id, (call pid).adds .user_mfa_recovery_codes id →
    start.row .user_mfa_recovery_codes id = none

/-- The code was there at the start, or a call has added it. -/
def Known (call : Pid → FactorCall) (start : Db) (log : FactorLog) (id : Text) : Prop :=
  (∃ code, start.row .user_mfa_recovery_codes id = some code) ∨
    ∃ pid done, (pid, done) ∈ log ∧ (call pid).adds .user_mfa_recovery_codes id

structure CodesOnce (call : Pid → FactorCall) (start db : Db) (log : FactorLog) : Prop where
  known : ∀ id code, db.row .user_mfa_recovery_codes id = some code → Known call start log id
  used : ∀ id ∈ acceptedCodes log, Known call start log id ∧
    ∀ code, db.row .user_mfa_recovery_codes id = some code → code.used_at.isSome = true
  once : (acceptedCodes log).Nodup

section

variable {env : Environment} {call : Pid → FactorCall} {done : FactorDone} {start db : Db}
  {pending : List (Write Row)} {held : Held Lock} {log : FactorLog} {pid : Pid} {id : Text}

theorem Known.cons (h : Known call start log id) : Known call start ((pid, done) :: log) id :=
  h.imp_right fun ⟨pid', done', mem, adds⟩ => ⟨pid', done', List.mem_cons_of_mem _ mem, adds⟩

/-- A call that is still running does not add a code that is known. -/
theorem Known.not_added (h : Known call start log id) (fresh : FreshCodes call start)
    (running : ∀ done, (pid, done) ∉ log) : ¬(call pid).adds .user_mfa_recovery_codes id := by
  intro added
  rcases h with ⟨code, was⟩ | ⟨pid', done, mem, adds⟩
  · rw [fresh.unused pid id added] at was
    cases was
  · obtain rfl := fresh.distinct pid' pid id adds added
    exact running done mem

theorem CodesOnce.commit (before : CodesOnce call start db log) (fresh : FreshCodes call start)
    (running : ∀ done, (pid, done) ∉ log) (h : FactorEnd env (call pid) done db pending held) :
    CodesOnce call start (view Database.apply db pending) ((pid, done) :: log) := by
  have still_used : ∀ id ∈ acceptedCodes log, ∀ code,
      rowAfter pending .user_mfa_recovery_codes id (db.row .user_mfa_recovery_codes id) = some code →
      code.used_at.isSome = true := by
    intro id mem code' there
    obtain ⟨known, used⟩ := before.used id mem
    rcases h.far .user_mfa_recovery_codes id with added | stems
    · exact absurd added (known.not_added fresh running)
    · obtain ⟨code, here, stays⟩ := stems code' there
      exact stays (used code here)
  refine ⟨fun id code there => ?_, fun id mem => ?_, ?_⟩
  · rw [view_row] at there
    rcases h.far .user_mfa_recovery_codes id with added | stems
    · exact .inr ⟨pid, done, by simp, added⟩
    · obtain ⟨code', here, -⟩ := stems code there
      exact (before.known id code' here).cons
  · simp only [view_row]
    cases accepted : done.code with
    | none =>
        have earlier : id ∈ acceptedCodes log := by simpa [acceptedCodes, accepted] using mem
        exact ⟨(before.used id earlier).1.cons, still_used id earlier⟩
    | some new =>
        have either : id = new ∨ id ∈ acceptedCodes log := by simpa [acceptedCodes, accepted] using mem
        rcases either with rfl | earlier
        · obtain ⟨method_id, consumed⟩ := FactorDone.consumed_of_code accepted
          obtain ⟨code, here, -, after⟩ := h.consumes method_id _ consumed
          have known := before.known id code here
          exact ⟨known.cons, after.resolve_left (known.not_added fresh running)⟩
        · exact ⟨(before.used id earlier).1.cons, still_used id earlier⟩
  · cases accepted : done.code with
    | none => simpa [acceptedCodes, accepted] using before.once
    | some new =>
        obtain ⟨method_id, consumed⟩ := FactorDone.consumed_of_code accepted
        obtain ⟨code, here, unused, -⟩ := h.consumes method_id _ consumed
        have first : new ∉ acceptedCodes log := by
          intro again
          have used := (before.used new again).2 code here
          simp [unused] at used
        have all := List.nodup_cons.mpr ⟨first, before.once⟩
        simpa [acceptedCodes, accepted] using all

end

/-! ## Runs -/

section

variable (env : Environment) (call : Pid → FactorCall)

structure SingleUse (start : Db) (s : FactorService) : Prop where
  serving : Serving Database.apply (fun _ => peers openNeeds noNewUsers)
    (fun pid => factorEnds env (call pid)) s
  single : s.Single
  challenges : ChallengesOnce env s.state.db s.log
  counters : CountersIncrease start s.state.db s.log
  codes : CodesOnce call start s.state.db s.log

variable {env call} {start : Db} {s : FactorService}

theorem SingleUse.step (fresh : FreshCodes call start) (h : SingleUse env call start s) (e : Event) :
    SingleUse env call start (s.step Database.apply e) := by
  have serving : Serving Database.apply (fun _ => peers openNeeds noNewUsers)
      (fun pid => factorEnds env (call pid)) (s.step Database.apply e) := by
    refine serving_step h.serving e (fun _ _ _ post => post.covered.lawful) ?_
    intro pid done pending _ _ at_ _ id gone
    rw [view_row]
    exact (h.serving.post_of_done at_).far .users id gone
  rcases s.step_cases Database.apply e with ⟨pid, done, pending, -, at_, db, log⟩ | ⟨db, log⟩
  · have ended := h.serving.post_of_done at_
    have running : ∀ done, (pid, done) ∉ s.log := by
      intro done mem
      have finished := h.single.committed pid done mem
      rw [at_] at finished
      cases finished
    refine ⟨serving, h.single.step e, ?_, ?_, ?_⟩
    · rw [db, log]
      exact h.challenges.commit ended
    · rw [db, log]
      exact h.counters.commit ended
    · rw [db, log]
      exact h.codes.commit fresh running ended
  · refine ⟨serving, h.single.step e, ?_, ?_, ?_⟩
    · rw [db, log]
      exact h.challenges
    · rw [db, log]
      exact h.counters
    · rw [db, log]
      exact h.codes

theorem SingleUse.initial {db : Db} (one_open : OneOpen db) :
    SingleUse env call db (factorService env call db) where
  serving := .initial db _ fun pid => .only fun fin => factorCall_ends env (call pid) fin
  single := .initial db _
  challenges := ⟨one_open, fun id mem => (by cases mem), List.nodup_nil, fun _ => .inl rfl⟩
  counters := ⟨fun id method here => ⟨method, here, rfl⟩, fun id counter mem => (by cases mem),
    fun _ => List.Pairwise.nil⟩
  codes := ⟨fun id code here => .inl ⟨code, here⟩, fun id mem => (by cases mem), List.nodup_nil⟩

end

theorem second_factors_single_use (env : Environment) (call : Pid → FactorCall) (db : Db)
    (one_open : OneOpen db) (fresh : FreshCodes call db) (events : List Event) :
    let s := run (Service.step Database.apply) (factorService env call db) events
    OneOpen s.state.db ∧ (completedChallenges s.log).Nodup ∧
      (∀ id, failures s.log id ≤ env.mfa_max_attempts) ∧
      (∀ id method, s.state.db.row .user_mfa_methods id = some method →
        ∃ first, db.row .user_mfa_methods id = some first ∧
          method.secret_encrypted = first.secret_encrypted) ∧
      (∀ id, (acceptedCounters id s.log).Pairwise (· > ·)) ∧ (acceptedCodes s.log).Nodup := by
  intro s
  have once : SingleUse env call db s :=
    run_invariant (I := SingleUse env call db) (fun _ e h => h.step fresh e) (.initial one_open) events
  refine ⟨once.challenges.one_open, once.challenges.once, fun id => ?_, once.counters.enrolled,
    once.counters.increasing, once.codes.once⟩
  rcases once.challenges.attempts id with none_failed | ⟨bound, -⟩
  · omega
  · exact bound

/-! A code of the authenticator app is sent twice for one login, and once more for the next
    one. -/

def authenticator : UserMfaMethod where
  user_id := text "a"
  type := "totp"
  secret_encrypted := text "123456"
  is_enabled := true
  verified_at := some 0
  setup_expires_at := none
  last_used_at := none
  last_used_counter := none

def oneMethod : Db where
  table := Function.update twoSuperusers.table .user_mfa_methods
    ((∅ : Table Text UserMfaMethod).insert (text "m") authenticator)

def replayedCode : Pid → FactorCall
  | 0 => .createChallenge (text "a") "password" none (text "c0") (text "t0") fun _ => 50
  | 1 => .verifyLogin (text "t0") (some (text "123456")) none (fun _ => 60) (text "l1")
  | 2 => .verifyLogin (text "t0") (some (text "123456")) none (fun _ => 61) (text "l2")
  | 3 => .createChallenge (text "a") "password" none (text "c1") (text "t1") fun _ => 62
  | _ => .verifyLogin (text "t1") (some (text "123456")) none (fun _ => 63) (text "l3")

def codeReplayed : List Event :=
  List.replicate 12 (Event.step 0) ++ List.replicate 6 (Event.step 1) ++ List.replicate 4 (Event.step 2) ++
    List.replicate 18 (Event.step 1) ++ List.replicate 4 (Event.step 2) ++ List.replicate 14 (Event.step 3) ++
    List.replicate 20 (Event.step 4)

def afterCodes : FactorService :=
  run (Service.step Database.apply) (factorService plainEnvironment replayedCode oneMethod) codeReplayed

theorem oneMethod_oneOpen : OneOpen oneMethod := by
  intro user_id key key' opened _
  obtain ⟨challenge, here, -⟩ := opened
  have none_there : oneMethod.row .auth_mfa_challenges key = none := rfl
  rw [none_there] at here
  cases here

theorem replayedCode_fresh : FreshCodes replayedCode oneMethod := by
  have none_added : ∀ pid id, ¬(replayedCode pid).adds .user_mfa_recovery_codes id := by
    intro pid id
    unfold replayedCode
    split <;> exact fun added => added
  exact ⟨fun pid _ id added => (none_added pid id added).elim,
    fun pid id added => (none_added pid id added).elim⟩

set_option maxRecDepth 10000 in
theorem second_factors_single_use_here :
    completedChallenges afterCodes.log = [text "c0"] ∧ failures afterCodes.log (text "c1") = 1 ∧
      acceptedCounters (text "m") afterCodes.log = [1] ∧ OneOpen afterCodes.state.db :=
  ⟨by decide +kernel, by decide +kernel, by decide +kernel, (second_factors_single_use plainEnvironment replayedCode oneMethod oneMethod_oneOpen
    replayedCode_fresh codeReplayed).1⟩

end PackageRegistry.Accounts
