import PackageRegistry.Accounts.Account

/-! # Second factors

Authenticator apps, recovery codes and the challenges of logins that wait for one of
them. A call that commits a failure and then raises ends with the error as its result.
-/

namespace PackageRegistry.Accounts

open Transactions Relational
open PackageRegistry.Auth (UserId Time AuthError auth_error)

/-! ## Errors -/

def _configuration_error : AuthError :=
  auth_error "MFA_SECRET_CONFIGURATION_ERROR"
    "Die Zwei-Faktor-Authentifizierung ist serverseitig nicht korrekt konfiguriert." 503

/-- What `compare_digest` raises for a text that is not ASCII. -/
def type_error : AuthError := ⟨"TypeError", "", 500⟩

def assertion_error : AuthError := ⟨"AssertionError", "", 500⟩

def mfa_challenge_invalid : AuthError :=
  auth_error "MFA_CHALLENGE_INVALID"
    "Die Anmeldung ist nicht mehr gültig. Bitte melden Sie sich erneut an." 400

def mfa_too_many_attempts : AuthError :=
  auth_error "MFA_TOO_MANY_ATTEMPTS" "Zu viele Fehlversuche. Bitte melden Sie sich erneut an." 429

def mfa_already_enabled : AuthError :=
  auth_error "MFA_ALREADY_ENABLED" "Zwei-Faktor-Authentifizierung ist bereits aktiviert." 409

def mfa_code_invalid (message : String) : AuthError := auth_error "MFA_CODE_INVALID" message 401

/-! ## Codes -/

section

variable (env : Environment)

def _secret_encrypt (nonce secret : Text) : Program Text :=
  match env.encrypt_mfa_secret nonce secret with
  | some ciphertext => pure ciphertext
  | none => fail _configuration_error

def _secret_decrypt (ciphertext : Text) : Program Text :=
  match env.decrypt_mfa_secret ciphertext with
  | some secret => pure secret
  | none => fail _configuration_error

/-- The time steps around `now`, earliest first -/
def counters (now : Time) : List Int :=
  (List.range (2 * env.mfa_totp_valid_window + 1)).map fun offset =>
    (now / 30 : Nat) - (env.mfa_totp_valid_window : Int) + offset

/-- The first time step for which the code is right -/
def matchingCounter (secret code : Text) (now : Time) : Option Int :=
  (counters env now).find? fun counter => env.totp_at secret counter == code

def _matching_counter (secret code : Text) (now : Time) : Program (Option Int) :=
  if code.length ≠ 6 ∨ env.isdigit code = false then pure none
  else if code.all CodePoint.isAscii then pure (matchingCounter env secret code now)
  else fail type_error

/-- What has been used up: a time step of the authenticator app, or a recovery code. -/
inductive Consumed where
  | totp (counter : Int)
  | recovery (code_id : Text)
  deriving DecidableEq

def UserMfaMethod.use (method : UserMfaMethod) (counter : Int) (now : Time) : UserMfaMethod :=
  { method with last_used_counter := some counter, last_used_at := some now }

/-- The readings `clock 1` and `clock 2` are the ones of this function. -/
def _consume_factor (method_id : Text) (method : UserMfaMethod) (code recovery_code : Option Text)
    (clock : Clock) : Program (Option Consumed) :=
  match truthy code with
  | some code => do
      let secret ← _secret_decrypt env method.secret_encrypted
      match ← _matching_counter env secret code.strip (clock 2) with
      | none => pure none
      | some counter =>
          if method.last_used_counter.any fun last => counter ≤ last then pure none
          else do
            update .user_mfa_methods method_id (·.use counter (clock 1))
            pure (some (.totp counter))
  | none =>
      match recovery_code with
      | none => fail assertion_error
      | some recovery_code => do
          match ← findForUpdate .user_mfa_recovery_codes fun row =>
              row.user_id == method.user_id &&
                row.code_hash == env.recovery_code_hash recovery_code && row.used_at.isNone with
          | none => pure none
          | some (code_id, _) => do
              update .user_mfa_recovery_codes code_id ({ · with used_at := some (clock 1) })
              update .user_mfa_methods method_id ({ · with last_used_at := some (clock 1) })
              pure (some (.recovery code_id))

/-! ## Logins that wait for a second factor -/

def AuthMfaChallenge.isOpen (challenge : AuthMfaChallenge) : Bool :=
  challenge.used_at.isNone && challenge.invalidated_at.isNone

def AuthMfaChallenge.invalidate (challenge : AuthMfaChallenge) (now : Time) : AuthMfaChallenge :=
  { challenge with invalidated_at := some now }

/-- The challenge has the id `challenge_id`; its `token` goes to the browser. -/
def create_login_challenge (user_id : UserId) (primary_method : String) (redirect_path : Option Text)
    (challenge_id token : Text) (clock : Clock) : Program Unit := do
  let _ ← getForUpdate .users user_id
  updateAll .auth_mfa_challenges
    (fun row => row.user_id == user_id && row.purpose == "login" && row.isOpen)
    (·.invalidate (clock 0))
  unique .auth_mfa_challenges (.auth_mfa_challenges_token_hash (env.hash_token token))
    fun row => row.token_hash == env.hash_token token
  insert .auth_mfa_challenges challenge_id
    { user_id := user_id
      token_hash := env.hash_token token
      purpose := "login"
      primary_method := primary_method
      redirect_path := redirect_path
      expires_at := clock 0 + env.mfa_challenge_expire_seconds
      used_at := none
      invalidated_at := none
      attempt_count := 0 }
  referTo .auth_mfa_challenges (some user_id)

def enabled_method (user_id : UserId) : Program (Option (Text × UserMfaMethod)) :=
  find .user_mfa_methods fun row => row.user_id == user_id && row.type == "totp" && row.is_enabled

/-- `enabled_method` with `lock=True` -/
def lockedMethod (user_id : UserId) : Program (Option (Text × UserMfaMethod)) :=
  findForUpdate .user_mfa_methods fun row =>
    row.user_id == user_id && row.type == "totp" && row.is_enabled

/-- The end of `verify_login_challenge`, if it commits. -/
inductive LoginVerified where
  | success (challenge_id : Text) (user_id : UserId) (method_id : Text) (used : Consumed)
      (primary_method : String)
  /-- The challenge is invalidated without looking at the code. -/
  | closed (challenge_id : Text) (error : AuthError)
  /-- The code was wrong. -/
  | failed (challenge_id : Text) (error : AuthError)

/-- The challenge is given up. -/
def closeChallenge (challenge_id : Text) (now : Time) (error : AuthError) : Program LoginVerified := do
  update .auth_mfa_challenges challenge_id (·.invalidate now)
  pure (.closed challenge_id error)

def AuthMfaChallenge.attempt (challenge : AuthMfaChallenge) (attempts : Nat) (blocked : Bool)
    (now : Time) : AuthMfaChallenge :=
  { challenge with
      attempt_count := attempts
      invalidated_at := if blocked then some now else challenge.invalidated_at }

/-- One more failed attempt -/
def failChallenge (challenge_id : Text) (challenge : AuthMfaChallenge) (user_id : UserId)
    (recovery_code : Option Text) (now : Time) (audit_id : Text) : Program LoginVerified := do
  let attempts := challenge.attempt_count + 1
  let blocked := env.mfa_max_attempts ≤ attempts
  let recovery := (truthy recovery_code).isSome
  update .auth_mfa_challenges challenge_id (·.attempt attempts blocked now)
  _audit audit_id user_id (if blocked then "MFA_CHALLENGE_BLOCKED" else "MFA_LOGIN_FAILED")
    [("method", if recovery then "recovery" else "totp")]
  pure (.failed challenge_id
    (if blocked then mfa_too_many_attempts
    else if recovery then
      auth_error "MFA_RECOVERY_CODE_INVALID" "Der Wiederherstellungscode ist nicht gültig." 401
    else mfa_code_invalid "Der Authenticator-Code ist nicht gültig."))

/-- The second factor was right, and the challenge is used up. -/
def completeChallenge (challenge_id : Text) (challenge : AuthMfaChallenge) (user_id : UserId)
    (method_id : Text) (used : Consumed) (now : Time) (audit_id : Text) : Program LoginVerified := do
  update .auth_mfa_challenges challenge_id ({ · with used_at := some now })
  update .users user_id ({ · with last_login_at := some now })
  let (action, name) := match used with
    | .recovery _ => ("MFA_RECOVERY_CODE_USED", "recovery")
    | .totp _ => ("MFA_LOGIN_SUCCESS", "totp")
  _audit audit_id user_id action [("method", name), ("primary", challenge.primary_method)]
  pure (.success challenge_id user_id method_id used challenge.primary_method)

def verify_login_challenge (token : Text) (code recovery_code : Option Text) (clock : Clock)
    (audit_id : Text) : Program LoginVerified := do
  match ← findForUpdate .auth_mfa_challenges fun row => row.token_hash == env.hash_token token with
  | none =>
      fail (auth_error "MFA_CHALLENGE_INVALID"
        "Die Anmeldung ist ungültig. Bitte melden Sie sich erneut an." 400)
  | some (challenge_id, challenge) =>
      if challenge.used_at.isSome then
        fail (auth_error "MFA_CHALLENGE_USED" "Diese Anmeldung wurde bereits abgeschlossen." 409)
      else if challenge.invalidated_at.isSome then fail mfa_challenge_invalid
      else if challenge.expires_at ≤ clock 0 then
        closeChallenge challenge_id (clock 0) (auth_error "MFA_CHALLENGE_EXPIRED"
          "Die Anmeldung ist abgelaufen. Bitte melden Sie sich erneut an." 400)
      else if env.mfa_max_attempts ≤ challenge.attempt_count then
        closeChallenge challenge_id (clock 0) mfa_too_many_attempts
      else do
        let method ← lockedMethod challenge.user_id
        let user ← get .users challenge.user_id
        match method, user.filter (·.is_active) with
        | some (method_id, method), some _ => do
            match ← _consume_factor env method_id method code recovery_code clock with
            | none =>
                failChallenge env challenge_id challenge challenge.user_id recovery_code (clock 0)
                  audit_id
            | some used =>
                completeChallenge challenge_id challenge challenge.user_id method_id used (clock 0)
                  audit_id
        | _, _ => closeChallenge challenge_id (clock 0) mfa_challenge_invalid

/-! ## The authenticator app -/

def anyMethod (user_id : UserId) : Program (Option (Text × UserMfaMethod)) :=
  findForUpdate .user_mfa_methods fun row => row.user_id == user_id && row.type == "totp"

def UserMfaMethod.setUp (method : UserMfaMethod) (secret_encrypted : Text) (setup_expires_at : Time) :
    UserMfaMethod :=
  { method with
      secret_encrypted := secret_encrypted
      setup_expires_at := some setup_expires_at
      last_used_counter := none }

/-- The `secret` is fresh, and a new row would have the id `method_id`. -/
def start_totp_setup (user_id : UserId) (secret nonce method_id : Text) (clock : Clock)
    (audit_id : Text) : Program Text := do
  let _ ← getForUpdate .users user_id
  match ← enabled_method user_id with
  | some _ =>
      fail mfa_already_enabled
  | none => do
      match ← anyMethod user_id with
      | some (present, _) => do
          let secret_encrypted ← _secret_encrypt env nonce secret
          update .user_mfa_methods present
            (·.setUp secret_encrypted (clock 0 + env.mfa_setup_expire_seconds))
      | none => do
          let secret_encrypted ← _secret_encrypt env nonce secret
          unique .user_mfa_methods (.user_mfa_methods_totp_user user_id) fun row =>
            row.user_id == user_id && row.type == "totp"
          insert .user_mfa_methods method_id
            { user_id := user_id
              type := "totp"
              secret_encrypted := secret_encrypted
              is_enabled := false
              verified_at := none
              setup_expires_at := some (clock 0 + env.mfa_setup_expire_seconds)
              last_used_at := none
              last_used_counter := none }
          referTo .user_mfa_methods (some user_id)
      _audit audit_id user_id "MFA_SETUP_STARTED" []
      pure secret

/-- The new codes, each with the id of its row -/
abbrev NewCodes := List (Text × Text)

def insertCodes (user_id : UserId) : NewCodes → Program Unit
  | [] => pure ()
  | (code_id, code) :: rest => do
      unique .user_mfa_recovery_codes
        (.user_mfa_recovery_codes_code_hash (env.recovery_code_hash code))
        fun row => row.code_hash == env.recovery_code_hash code
      insert .user_mfa_recovery_codes code_id
        { user_id := user_id, code_hash := env.recovery_code_hash code, used_at := none }
      referTo .user_mfa_recovery_codes (some user_id)
      insertCodes user_id rest

def _replace_recovery_codes (user_id : UserId) (codes : NewCodes) : Program Unit := do
  deleteAll .user_mfa_recovery_codes (·.user_id == user_id)
  insertCodes env user_id codes

def UserMfaMethod.enable (method : UserMfaMethod) (counter : Int) (now : Time) : UserMfaMethod :=
  { method with
      is_enabled := true
      verified_at := some now
      setup_expires_at := none
      last_used_counter := some counter
      last_used_at := some now }

/-- What `confirm_totp_setup` has accepted: the time step, for the secret of the method. -/
structure TotpConfirmed where
  method_id : Text
  user_id : UserId
  secret_encrypted : Text
  counter : Int
  codes : List Text

def confirm_totp_setup (user_id : UserId) (code : Text) (clock : Clock) (codes : NewCodes)
    (audit_id : Text) : Program TotpConfirmed := do
  match ← anyMethod user_id with
  | none => fail setup_expired
  | some (method_id, method) =>
      if method.is_enabled ∨ method.setup_expires_at.all (· ≤ clock 0) then fail setup_expired
      else do
        let secret ← _secret_decrypt env method.secret_encrypted
        match ← _matching_counter env secret code (clock 1) with
        | none => fail (mfa_code_invalid "Der eingegebene Code ist nicht gültig.")
        | some counter => do
            update .user_mfa_methods method_id (·.enable counter (clock 0))
            _replace_recovery_codes env user_id codes
            _audit audit_id user_id "MFA_ENABLED" []
            pure ⟨method_id, user_id, method.secret_encrypted, counter, codes.map (·.2)⟩
where
  setup_expired : AuthError :=
    auth_error "MFA_SETUP_EXPIRED" "Die Einrichtung ist abgelaufen. Bitte beginnen Sie erneut." 400

/-! ## Sensitive actions -/

/-- The factor that the user has shown again -/
structure Shown where
  method_id : Text
  method : UserMfaMethod
  used : Consumed

structure Credentials where
  current_password : Option Text
  code : Option Text
  recovery_code : Option Text

/-- The password was asked for, and is missing or wrong. -/
def User.passwordRefused (user : User) (env : Environment) (current_password : Option Text) : Bool :=
  (truthy user.password_hash).any fun password_hash =>
    (truthy current_password).all fun password => !env.verify_password password password_hash

/-- The user as the request has loaded it -/
def verify_sensitive_action (user_id : UserId) (user : User) (given : Credentials) (clock : Clock) :
    Program Shown := do
  match ← lockedMethod user_id with
  | none =>
      fail (auth_error "MFA_NOT_ENABLED" "Zwei-Faktor-Authentifizierung ist nicht aktiviert." 409)
  | some (method_id, method) =>
      if user.passwordRefused env given.current_password then
        fail (auth_error "INVALID_CREDENTIALS" "Das aktuelle Passwort ist nicht korrekt." 401)
      else do
        match ← _consume_factor env method_id method given.code given.recovery_code clock with
        | none => fail (mfa_code_invalid "Der eingegebene Code ist nicht gültig.")
        | some used => pure ⟨method_id, method, used⟩

def regenerate_recovery_codes (user_id : UserId) (user : User) (given : Credentials) (clock : Clock)
    (codes : NewCodes) (audit_id : Text) : Program Shown := do
  let shown ← verify_sensitive_action env user_id user given clock
  _replace_recovery_codes env user_id codes
  _audit audit_id user_id "MFA_RECOVERY_CODES_REGENERATED" []
  pure shown

def disable_mfa (user_id : UserId) (user : User) (given : Credentials) (clock : Clock)
    (audit_id : Text) : Program Shown := do
  let shown ← verify_sensitive_action env user_id user given clock
  deleteAll .user_mfa_recovery_codes (·.user_id == user_id)
  deleteAll .user_mfa_methods (·.user_id == user_id)
  updateAll .auth_mfa_challenges (fun row => row.user_id == user_id && row.used_at.isNone)
    (·.invalidate (clock 3))
  revokeSessions user_id (clock 3) .mfa_disabled
  _audit audit_id user_id "MFA_DISABLED" []
  pure shown

/-- A request of a signed-in user, who is loaded first: `get_current_user` -/
def signedIn {α : Type} (user_id : UserId) (request : User → Program α) : Program α := do
  match ← get .users user_id with
  | none => fail auth_required
  | some user =>
      if user.is_active then request user else fail (Auth.inactive_account_error user.toUser)

end

end PackageRegistry.Accounts
