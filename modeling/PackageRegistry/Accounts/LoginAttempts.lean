import PackageRegistry.Accounts.Mfa
import PackageRegistry.Accounts.Superusers
import PackageRegistry.Lib.Alone

/-! # What a submitted code costs

A login that waits for its second factor is completed by a request, or the request counts
as a failed attempt. A third way out is left to codes that cannot be compared.
-/

namespace PackageRegistry.Accounts

open Transactions Relational
open PackageRegistry.Auth (UserId Time AuthError)

structure MfaVerifyRequest where
  challenge_token : Option Text
  code : Option Text
  recovery_code : Option Text
  token_length : ∀ t, challenge_token = some t → 32 ≤ t.length ∧ t.length ≤ 512
  code_length : ∀ t, code = some t → 6 ≤ t.length ∧ t.length ≤ 8
  recovery_code_length : ∀ t, recovery_code = some t → 12 ≤ t.length ∧ t.length ≤ 32
  exactly_one_code : (truthy code).isSome ≠ (truthy recovery_code).isSome

/-- An open challenge of an active user with an authenticator app, found by its token. -/
structure Waiting (env : Environment) (db : Db) (token : Text) (now : Time) (challenge_id : Text)
    (challenge : AuthMfaChallenge) (method_id : Text) (method : UserMfaMethod) : Prop where
  challenge_found : (db.first .auth_mfa_challenges fun _ row =>
    row.token_hash == env.hash_token token) = some (challenge_id, challenge)
  not_used : challenge.used_at = none
  not_invalidated : challenge.invalidated_at = none
  unexpired : now < challenge.expires_at
  attempts_left : challenge.attempt_count < env.mfa_max_attempts
  method_found : (db.first .user_mfa_methods fun _ row =>
    row.user_id == challenge.user_id && row.type == "totp" && row.is_enabled) =
      some (method_id, method)
  user_active : ∃ user, db.row .users challenge.user_id = some user ∧ user.is_active = true

/-- The call has completed the challenge, or raised after committing one more attempt. -/
def CompletedOrCounted (env : Environment) (challenge_id : Text) (challenge : AuthMfaChallenge)
    (now : Time) (outcome : Except (Failure AuthError) (LoginVerified × Db)) : Prop :=
  (∃ method_id used after,
    outcome = .ok (.success challenge_id challenge.user_id method_id used
      challenge.primary_method, after) ∧
    after.row .auth_mfa_challenges challenge_id = some { challenge with used_at := some now }) ∨
  ∃ error after, outcome = .ok (.failed challenge_id error, after) ∧
    after.row .auth_mfa_challenges challenge_id = some { challenge with
      attempt_count := challenge.attempt_count + 1
      invalidated_at :=
        if env.mfa_max_attempts ≤ challenge.attempt_count + 1 then some now else none }

/-- The secret can be read, and the code is not made of six digits that are not all ASCII. -/
def Comparable (env : Environment) (method : UserMfaMethod) (code : Text) : Prop :=
  (env.decrypt_mfa_secret method.secret_encrypted).isSome = true ∧
    ¬(code.strip.length = 6 ∧ env.isdigit code.strip = true ∧
      code.strip.all CodePoint.isAscii = false)

section

variable {env : Environment} {db : Db}

/-! ## The statements -/

theorem exec_findForUpdate (T : TableName) (p : Row T → Bool) :
    exec Database.apply (findForUpdate T p) db = .ok (db.first T fun _ row => p row, db) :=
  exec_selectForUpdate fun _ row => p row

theorem exec_audit {id : Text} {user_id : UserId} {user : User} (action : String)
    (event_metadata : List (String × String)) (fresh : db.row .auth_audit_logs id = none)
    (here : db.row .users user_id = some user) :
    exec Database.apply (_audit id user_id action event_metadata) db =
      .ok ((), db.apply ⟨.auth_audit_logs, id, .insert (ownEntry user_id action event_metadata)⟩) := by
  have still : (db.apply ⟨.auth_audit_logs, id,
      .insert (ownEntry user_id action event_metadata)⟩).row .users user_id = some user := by
    rw [apply_row, onRow_other (by decide), here]
  rw [_audit, insertAudit, insert, Tx.bind_eq, exec_then (exec_insertRow fresh _), Tx.bind_eq]
  exact (exec_then (exec_refer still)).trans (exec_refer still)

/-- A factor that is not accepted leaves the database as it was; one that is leaves the
challenge, the user and the audit log alone. -/
theorem exec_consume_factor {method_id : Text} {method : UserMfaMethod} (request : MfaVerifyRequest)
    (clock : Clock) (here : db.row .user_mfa_methods method_id = some method)
    (comparable : ∀ code, truthy request.code = some code → Comparable env method code) :
    exec Database.apply
        (_consume_factor env method_id method request.code request.recovery_code clock) db =
      .ok (none, db) ∨
    ∃ used after, exec Database.apply
        (_consume_factor env method_id method request.code request.recovery_code clock) db =
          .ok (some used, after) ∧
      ∀ T, T ≠ .user_mfa_methods → T ≠ .user_mfa_recovery_codes →
        ∀ key, after.row T key = db.row T key := by
  unfold _consume_factor
  cases given : truthy request.code with
  | some code =>
      obtain ⟨readable, comparable⟩ := comparable code given
      obtain ⟨secret, decrypted⟩ := Option.isSome_iff_exists.mp readable
      have secret_read : exec Database.apply (_secret_decrypt env method.secret_encrypted) db =
          .ok (secret, db) := by
        simp only [_secret_decrypt, decrypted]
        rfl
      simp only [Tx.bind_eq]
      rw [exec_then secret_read]
      by_cases digits : code.strip.length ≠ 6 ∨ env.isdigit code.strip = false
      · have nothing : exec Database.apply
            (_matching_counter env secret code.strip (clock 2)) db = .ok (none, db) := by
          rw [_matching_counter, if_pos digits]
          rfl
        rw [exec_then nothing]
        exact .inl rfl
      · have ascii : code.strip.all CodePoint.isAscii = true := by
          rw [not_or, not_not, Bool.not_eq_false] at digits
          by_contra exotic
          exact comparable ⟨digits.1, digits.2, Bool.eq_false_iff.mpr exotic⟩
        have compared : exec Database.apply
            (_matching_counter env secret code.strip (clock 2)) db =
              .ok (matchingCounter env secret code.strip (clock 2), db) := by
          rw [_matching_counter, if_neg digits, if_pos ascii]
          rfl
        rw [exec_then compared]
        cases matchingCounter env secret code.strip (clock 2) with
        | none => exact .inl rfl
        | some counter =>
            dsimp only
            split
            · exact .inl rfl
            · refine .inr ⟨_, _, exec_then (exec_updateRow here _), ?_⟩
              intro T other _ key
              rw [apply_row, onRow_other (Ne.symm other)]
  | none =>
      have recovery : (truthy request.recovery_code).isSome = true := by
        have one := request.exactly_one_code
        rw [given] at one
        exact Bool.eq_true_of_not_eq_false one.symm
      obtain ⟨recovery_code, written⟩ : ∃ t, request.recovery_code = some t := by
        cases written : request.recovery_code with
        | none =>
            rw [written] at recovery
            cases recovery
        | some t => exact ⟨t, rfl⟩
      simp only [written, Tx.bind_eq]
      rw [exec_then (exec_findForUpdate _ _)]
      cases found : db.first .user_mfa_recovery_codes fun _ row => row.user_id == method.user_id &&
          row.code_hash == env.recovery_code_hash recovery_code && row.used_at.isNone with
      | none => exact .inl rfl
      | some row =>
          have code_here : db.row .user_mfa_recovery_codes row.1 = some row.2 := (first_some found).1
          have method_here : (db.apply ⟨.user_mfa_recovery_codes, row.1,
              .update ({ · with used_at := some (clock 1) })⟩).row .user_mfa_methods method_id =
                some method := by
            rw [apply_row, onRow_other (by decide), here]
          refine .inr ⟨_, _, (exec_then (exec_updateRow code_here _)).trans
            (exec_then (exec_updateRow method_here _)), ?_⟩
          intro T other other' key
          rw [apply_row, onRow_other (Ne.symm other), apply_row, onRow_other (Ne.symm other')]

theorem consume_factor_raises {method_id : Text} {method : UserMfaMethod}
    {code recovery_code : Option Text} {clock : Clock} {given : Text}
    (truthy_code : truthy code = some given) (incomparable : ¬Comparable env method given) :
    ∃ e, exec Database.apply
      (_consume_factor env method_id method code recovery_code clock) db = .error e := by
  unfold _consume_factor
  simp only [truthy_code, Tx.bind_eq]
  cases decrypted : env.decrypt_mfa_secret method.secret_encrypted with
  | none =>
      refine ⟨.error _configuration_error, exec_raised ?_⟩
      simp only [_secret_decrypt, decrypted]
      rfl
  | some secret =>
      have secret_read : exec Database.apply (_secret_decrypt env method.secret_encrypted) db =
          .ok (secret, db) := by
        simp only [_secret_decrypt, decrypted]
        rfl
      have exotic : given.strip.length = 6 ∧ env.isdigit given.strip = true ∧
          given.strip.all CodePoint.isAscii = false := by
        by_contra other
        exact incomparable ⟨by rw [decrypted]; rfl, other⟩
      refine ⟨.error type_error, (exec_then secret_read).trans (exec_raised ?_)⟩
      rw [_matching_counter, if_neg (by simp [exotic.1, exotic.2.1]),
        if_neg (by simp [exotic.2.2])]
      rfl

/-! ## The call -/

section

variable {token : Text} {clock : Clock} {challenge_id method_id : Text}
  {challenge : AuthMfaChallenge} {method : UserMfaMethod} {audit_id : Text}

theorem Waiting.challenge_here
    (waiting : Waiting env db token (clock 0) challenge_id challenge method_id method) :
    db.row .auth_mfa_challenges challenge_id = some challenge :=
  (first_some waiting.challenge_found).1

/-- For a challenge that waits, the call comes to the factor. -/
theorem exec_verify_login_challenge
    (waiting : Waiting env db token (clock 0) challenge_id challenge method_id method)
    (code recovery_code : Option Text) :
    exec Database.apply
        (verify_login_challenge env token code recovery_code clock audit_id) db =
      exec Database.apply
        ((_consume_factor env method_id method code recovery_code clock).bind fun used =>
          used.elim
            (failChallenge env challenge_id challenge challenge.user_id recovery_code (clock 0)
              audit_id)
            fun used => completeChallenge challenge_id challenge challenge.user_id method_id used
              (clock 0) audit_id) db := by
  obtain ⟨user, here, active⟩ := waiting.user_active
  have locked : exec Database.apply (lockedMethod challenge.user_id) db =
      .ok (some (method_id, method), db) := by
    rw [lockedMethod, exec_findForUpdate, waiting.method_found]
  have loaded : exec Database.apply (get .users challenge.user_id) db = .ok (some user, db) := by
    rw [← here]
    rfl
  have isActive : Option.filter (·.is_active) (some user) = some user := by
    rw [Option.filter_some, if_pos active]
  unfold verify_login_challenge
  rw [Tx.bind_eq, exec_then (exec_findForUpdate _ _), waiting.challenge_found]
  simp only [waiting.not_used, waiting.not_invalidated, Option.isSome_none, Bool.false_eq_true,
    if_false, Nat.not_le.mpr waiting.unexpired, Nat.not_le.mpr waiting.attempts_left, Tx.bind_eq]
  rw [exec_then locked, exec_then loaded]
  simp only [isActive]
  congr 2
  funext used
  cases used <;> rfl

theorem exec_failChallenge (recovery_code : Option Text) {user : User}
    (open_ : challenge.invalidated_at = none)
    (challenge_here : db.row .auth_mfa_challenges challenge_id = some challenge)
    (user_here : db.row .users challenge.user_id = some user)
    (fresh : db.row .auth_audit_logs audit_id = none) :
    CompletedOrCounted env challenge_id challenge (clock 0) (exec Database.apply
      (failChallenge env challenge_id challenge challenge.user_id recovery_code (clock 0)
        audit_id) db) := by
  unfold failChallenge
  simp only [Tx.bind_eq]
  refine .inr ⟨_, _, (exec_then (exec_updateRow challenge_here _)).trans
    (exec_then (@exec_audit _ _ _ user _ _ ?_ ?_)), ?_⟩
  · rw [apply_row, onRow_other (by decide), fresh]
  · rw [apply_row, onRow_other (by decide), user_here]
  · rw [apply_row, onRow_other (by decide), apply_row, onRow_same, if_pos rfl, challenge_here]
    simp only [Change.on, Option.map_some, AuthMfaChallenge.attempt, open_, decide_eq_true_eq]

theorem exec_completeChallenge (used : Consumed) {user : User}
    (challenge_here : db.row .auth_mfa_challenges challenge_id = some challenge)
    (user_here : db.row .users challenge.user_id = some user)
    (fresh : db.row .auth_audit_logs audit_id = none) :
    CompletedOrCounted env challenge_id challenge (clock 0) (exec Database.apply
      (completeChallenge challenge_id challenge challenge.user_id method_id used (clock 0)
        audit_id) db) := by
  unfold completeChallenge
  simp only [Tx.bind_eq]
  have user_still : (db.apply ⟨.auth_mfa_challenges, challenge_id,
      .update ({ · with used_at := some (clock 0) })⟩).row .users challenge.user_id = some user := by
    rw [apply_row, onRow_other (by decide), user_here]
  refine .inl ⟨_, _, _, (exec_then (exec_updateRow challenge_here _)).trans
    ((exec_then (exec_updateRow user_still _)).trans
      (exec_then (@exec_audit _ _ _ { user with last_login_at := some (clock 0) } _ _ ?_ ?_))), ?_⟩
  · rw [apply_row, onRow_other (by decide), apply_row, onRow_other (by decide), fresh]
  · rw [apply_row, onRow_same, if_pos rfl, user_still]
    rfl
  · rw [apply_row, onRow_other (by decide), apply_row, onRow_other (by decide), apply_row,
      onRow_same, if_pos rfl, challenge_here]
    rfl

end

end

/-- Every request completes the challenge or costs an attempt, unless its code is one that the
comparison does not take. -/
theorem rejected_code_counts (env : Environment) (db : Db) (request : MfaVerifyRequest)
    (token : Text) (clock : Clock) (audit_id challenge_id : Text) (challenge : AuthMfaChallenge)
    (method_id : Text) (method : UserMfaMethod)
    (waiting : Waiting env db token (clock 0) challenge_id challenge method_id method)
    (fresh : db.row .auth_audit_logs audit_id = none) :
    CompletedOrCounted env challenge_id challenge (clock 0) (exec Database.apply
        (verify_login_challenge env token request.code request.recovery_code clock audit_id) db) ↔
      ∀ code, truthy request.code = some code → Comparable env method code := by
  rw [exec_verify_login_challenge waiting]
  constructor
  · intro settled code given
    by_contra incomparable
    obtain ⟨e, raised⟩ := @consume_factor_raises env db method_id method request.code
      request.recovery_code clock code given incomparable
    rw [exec_raised raised] at settled
    rcases settled with ⟨_, _, _, same, -⟩ | ⟨_, _, same, -⟩
    · cases same
    · cases same
  · intro comparable
    obtain ⟨user, user_here, -⟩ := waiting.user_active
    have method_here := (first_some waiting.method_found).1
    rcases exec_consume_factor request clock method_here comparable with
      refused | ⟨used, after, accepted, same⟩
    · rw [exec_then refused]
      exact exec_failChallenge _ waiting.not_invalidated waiting.challenge_here user_here fresh
    · rw [exec_then accepted]
      refine exec_completeChallenge used ?_ (?_ : after.row .users challenge.user_id = some user) ?_
      · rw [same _ (by decide) (by decide), waiting.challenge_here]
      · rw [same _ (by decide) (by decide), user_here]
      · rw [same _ (by decide) (by decide), fresh]

/-! ## A code of other digits -/

/-- Digits as `str.isdigit` sees them: ASCII, and the Arabic ones. -/
def digitsEnvironment : Environment :=
  { plainEnvironment with isdigit := fun code => !code.isEmpty && code.all fun c =>
      c.isDigit || (0x660 ≤ c.val && c.val ≤ 0x669) }

def waitingLogin : AuthMfaChallenge where
  user_id := text "a"
  token_hash := text "t0"
  purpose := "login"
  primary_method := "password"
  redirect_path := none
  expires_at := 350
  used_at := none
  invalidated_at := none
  attempt_count := 0

def enrolled : UserMfaMethod where
  user_id := text "a"
  type := "totp"
  secret_encrypted := text "123456"
  is_enabled := true
  verified_at := some 0
  setup_expires_at := none
  last_used_at := none
  last_used_counter := none

def oneLogin : Db where
  table := Function.update (Function.update twoSuperusers.table .user_mfa_methods
    ((∅ : Table Text UserMfaMethod).insert (text "m") enrolled)) .auth_mfa_challenges
    ((∅ : Table Text AuthMfaChallenge).insert (text "c0") waitingLogin)

def codeRequest (code : Text) (length : 6 ≤ code.length ∧ code.length ≤ 8) : MfaVerifyRequest where
  challenge_token := none
  code := some code
  recovery_code := none
  token_length := nofun
  code_length := by
    rintro _ ⟨⟩
    exact length
  recovery_code_length := nofun
  exactly_one_code := by
    have present : code ≠ [] := by
      rintro rfl
      exact absurd length.1 (by decide)
    simp [truthy, present]

theorem oneLogin_waiting :
    Waiting digitsEnvironment oneLogin (text "t0") 60 (text "c0") waitingLogin (text "m")
      enrolled where
  challenge_found := rfl
  not_used := rfl
  not_invalidated := rfl
  unexpired := by decide
  attempts_left := by decide
  method_found := rfl
  user_active := ⟨superuser, rfl, rfl⟩

theorem rejected_code_counts_here :
    CompletedOrCounted digitsEnvironment (text "c0") waitingLogin 60 (exec Database.apply
      (verify_login_challenge digitsEnvironment (text "t0") (some (text "000000")) none
        (fun _ => 60) (text "l1")) oneLogin) :=
  (rejected_code_counts digitsEnvironment oneLogin (codeRequest (text "000000") (by decide))
    (text "t0") (fun _ => 60) (text "l1") (text "c0") waitingLogin (text "m") enrolled
    oneLogin_waiting rfl).mpr (by
      rintro code ⟨⟩
      exact ⟨rfl, by decide⟩)

/-- Six Arabic digits end in a `TypeError`, and nothing is committed. -/
theorem arabic_digits_uncounted :
    Waiting digitsEnvironment oneLogin (text "t0") 60 (text "c0") waitingLogin (text "m")
      enrolled ∧
    ∃ request : MfaVerifyRequest, request.code = some (text "٠١٢٣٤٥") ∧
      ¬CompletedOrCounted digitsEnvironment (text "c0") waitingLogin 60 (exec Database.apply
        (verify_login_challenge digitsEnvironment (text "t0") request.code request.recovery_code
          (fun _ => 60) (text "l1")) oneLogin) := by
  refine ⟨oneLogin_waiting, codeRequest (text "٠١٢٣٤٥") (by decide), rfl, ?_⟩
  have raised : exec Database.apply
      (verify_login_challenge digitsEnvironment (text "t0") (some (text "٠١٢٣٤٥")) none
        (fun _ => 60) (text "l1")) oneLogin = .error (.error type_error) := rfl
  rintro (⟨_, _, _, same, -⟩ | ⟨_, _, same, -⟩)
  · cases raised.symm.trans same
  · cases raised.symm.trans same

end PackageRegistry.Accounts
