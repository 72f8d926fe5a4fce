import PackageRegistry.Lib.Interference
import PackageRegistry.Lib.Table
import PackageRegistry.Lib.Text

/-! # Sessions and what revokes them

`refresh_session` and the operations that revoke sessions, statement by statement.
A set-based UPDATE is a snapshot of the matching rows followed by one lock, one
recheck and one write for each of them. JWTs, hashes and clocks come from outside:
they are parameters, and every call has its own readings of the clock.
-/

namespace PackageRegistry.Auth

open Transactions

/-- Canonical texts of UUIDs -/
abbrev UserId := Text
abbrev FamilyId := Text

/-- Seconds since an epoch -/
abbrev Time := Nat

inductive RevocationReason where
  | expired
  | rotated
  | logout
  | logout_all
  | password_reset
  | password_changed
  | refresh_token_reuse
  | user_inactive
  | account_deactivated
  | mfa_disabled
  deriving DecidableEq

/-- A row of `user_sessions`; its key is the `jti`. -/
structure UserSession where
  user_id : UserId
  token_hash : Text
  family_id : FamilyId
  expires_at : Time
  last_used_at : Option Time
  revoked_at : Option Time
  rotated_at : Option Time
  replaced_by_jti : Option Text
  revocation_reason : Option RevocationReason
  deriving DecidableEq

inductive AccountDeactivationReason where
  | SELF_DEACTIVATED
  | ADMIN_DEACTIVATED
  deriving DecidableEq

structure User where
  email : Text
  password_hash : Option Text
  is_active : Bool
  deactivation_reason : Option AccountDeactivationReason
  updated_at : Time
  deriving DecidableEq

/-- A row of `password_reset_tokens`; its key is the hash of the token. -/
structure PasswordResetToken where
  user_id : UserId
  expires_at : Time
  used_at : Option Time
  invalidated_at : Option Time
  deriving DecidableEq

structure AuthAuditLog where
  target_user_id : UserId
  action : String
  deriving DecidableEq

structure Db where
  users : Table UserId User
  user_sessions : Table Text UserSession
  password_reset_tokens : Table Text PasswordResetToken
  auth_audit_logs : List AuthAuditLog

inductive Write where
  | revoke (jti : Text) (revoked_at : Time) (reason : RevocationReason)
  | rotate (jti : Text) (now : Time) (replaced_by_jti : Text)
  | addSession (jti : Text) (record : UserSession)
  | setPassword (user : UserId) (password_hash : Text) (updated_at : Time)
  | addToken (token : Text) (record : PasswordResetToken)
  | useToken (token : Text) (used_at : Time)
  | invalidateToken (token : Text) (invalidated_at : Time)
  | audit (entry : AuthAuditLog)

def UserSession.revoke (record : UserSession) (revoked_at : Time) (reason : RevocationReason) :
    UserSession :=
  { record with revoked_at := some revoked_at, revocation_reason := some reason }

def UserSession.rotate (record : UserSession) (now : Time) (replaced_by_jti : Text) :
    UserSession :=
  { record with
      revoked_at := some now
      rotated_at := some now
      last_used_at := some now
      replaced_by_jti := some replaced_by_jti
      revocation_reason := some .rotated }

def Db.apply (db : Db) : Write → Db
  | .revoke jti revoked_at reason =>
      { db with user_sessions := db.user_sessions.modify jti (·.revoke revoked_at reason) }
  | .rotate jti now replaced_by_jti =>
      { db with user_sessions := db.user_sessions.modify jti (·.rotate now replaced_by_jti) }
  | .addSession jti record => { db with user_sessions := db.user_sessions.insert jti record }
  | .setPassword user password_hash updated_at =>
      { db with users := db.users.modify user fun u =>
          { u with password_hash := some password_hash, updated_at := updated_at } }
  | .addToken token record =>
      { db with password_reset_tokens := db.password_reset_tokens.insert token record }
  | .useToken token used_at =>
      { db with password_reset_tokens := db.password_reset_tokens.modify token fun t =>
          { t with used_at := some used_at } }
  | .invalidateToken token invalidated_at =>
      { db with password_reset_tokens := db.password_reset_tokens.modify token fun t =>
          { t with invalidated_at := some invalidated_at } }
  | .audit entry => { db with auth_audit_logs := db.auth_audit_logs ++ [entry] }

inductive Resource where
  | session (jti : Text)
  | user (id : UserId)
  | token (hash : Text)
  deriving DecidableEq

inductive Statement where
  | selectSession
  | selectUser
  | selectToken
  | flush
  /-- The snapshot of the UPDATE on `user_sessions` -/
  | updateSessions
  /-- One row of the UPDATE on `user_sessions` -/
  | updateSessionRow
  | updateTokens
  | updateTokenRow
  deriving DecidableEq

structure AuthError where
  code : String
  message : String
  status : Nat
  deriving DecidableEq

/-- What leaves a transaction and rolls it back. -/
inductive Refusal where
  | http (error : AuthError)
  | integrity
  deriving DecidableEq

/-- The sessions that an operation revokes. -/
inductive Scope where
  | family (id : FamilyId)
  | user (id : UserId)
  deriving DecidableEq

def Scope.covers : Scope → UserSession → Bool
  | .family id, record => record.family_id == id
  | .user id, record => record.user_id == id

/-- The end of a call that commits. `revoked` names the sessions it has revoked. -/
inductive Outcome where
  | refreshed (jti : Text)
  | failed (error : AuthError) (revoked : Option Scope)
  | revoked (scope : Scope)
  | nothing
  deriving DecidableEq

def Outcome.scope : Outcome → Option Scope
  | .failed _ ended => ended
  | .revoked whole => some whole
  | _ => none

abbrev Program := Tx Db Resource Write Statement Refusal

def fail {α : Type} (error : AuthError) : Program α := .raise (.http error)

/-! ## Errors -/

def auth_error (code message : String) (status : Nat) : AuthError := ⟨code, message, status⟩

def please_log_in (code : String) : AuthError :=
  auth_error code "Bitte melden Sie sich erneut an." 401

def refresh_already_rotated : AuthError :=
  auth_error "REFRESH_ALREADY_ROTATED"
    "Die Sitzung wurde bereits aktualisiert. Bitte wiederholen Sie die Anfrage." 409

def inactive_account_error (user : User) : AuthError :=
  if user.deactivation_reason = some .SELF_DEACTIVATED then
    auth_error "ACCOUNT_SELF_DEACTIVATED" "Dieses Konto wurde selbst deaktiviert." 403
  else auth_error "ACCOUNT_DISABLED" "Dieses Konto ist derzeit deaktiviert." 403

/-! ## What comes from outside -/

inductive JwtError where
  | expired
  | invalid

structure Payload where
  sub : Text
  jti : Text

structure Environment where
  /-- `decode_jwt(token, "refresh")` -/
  decode_jwt : Text → Except JwtError Payload
  hash_token : Text → Text
  verify_password : Text → Text → Bool
  hash_password : Text → Text
  /-- The message of the `ValueError`, if the policy refuses the password. -/
  validate_password_policy : Text → Option String
  refresh_token_reuse_grace_seconds : Nat
  password_reset_expire_minutes : Nat
  /-- `lower` of the database -/
  sql_lower : Text → Text
  /-- `str.lower` -/
  lower : Text → Text

/-- What `create_session_record` generates. -/
structure NextToken where
  jti : Text
  token_hash : Text
  expires_at : Time

/-! ## Statements -/

/-- `SELECT ... FOR UPDATE`: a matching row is locked and then read again. -/
def selectForUpdate {ν : Type} (q : Statement) (r : Resource) (row : Db → Option ν) :
    Program (Option ν) := do
  match ← Tx.query q row with
  | none => pure none
  | some _ => do
      Tx.acquire q r .update
      Tx.query q row

/-- The rows of a set-based UPDATE, in any order: each is locked, and written if it
    still matches. -/
def updateRows (q : Statement) (resource : Text → Resource) (matching : Db → Text → Bool)
    (set : Text → Write) : List Text → Program Unit
  | [] => pure ()
  | key :: rest => do
      Tx.acquire q (resource key) .noKeyUpdate
      if ← Tx.query q fun db => matching db key then
        Tx.put q (set key)
        updateRows q resource matching set rest
      else updateRows q resource matching set rest

/-- A session that the UPDATE of a revocation matches. -/
def Scope.live (scope : Scope) (record : UserSession) : Bool :=
  scope.covers record && record.revoked_at.isNone

def Db.liveAt (db : Db) (scope : Scope) (jti : Text) : Bool :=
  db.user_sessions[jti]?.any scope.live

def updateSessions (scope : Scope) (revoked_at : Time) (reason : RevocationReason) :
    Program Unit := do
  let keys ← Tx.query .updateSessions fun db =>
    Table.keysWhere db.user_sessions fun _ record => scope.live record
  updateRows .updateSessionRow .session (fun db jti => db.liveAt scope jti)
    (fun jti => .revoke jti revoked_at reason) keys

def revoke_token_family (family_id : FamilyId) (revoked_at : Time) (reason : RevocationReason) :
    Program Unit :=
  updateSessions (.family family_id) revoked_at reason

def revoke_all_sessions (user_id : UserId) (now : Time) (reason : RevocationReason) :
    Program Unit :=
  updateSessions (.user user_id) now reason

/-- The foreign key check of a row that refers to a user. -/
def referUser (user_id : UserId) : Program Unit := do
  Tx.acquire .flush (.user user_id) .keyShare
  if ← Tx.query .flush fun db => db.users.contains user_id then pure () else .raise .integrity

/-! ## The operations -/

section

variable (env : Environment)

/-- `revoke_token_family` and the commit after it; the call then raises. -/
def revokeAndFail (family_id : FamilyId) (now : Time) (error : AuthError) : Program Outcome := do
  revoke_token_family family_id now .user_inactive
  pure (.failed error (some (.family family_id)))

/-- The last part of `refresh_session`: the old record is rotated, the next one added. -/
def rotateSession (jti : Text) (record : UserSession) (now : Time) (next : NextToken) :
    Program Outcome := do
  Tx.acquire .flush (.session jti) .noKeyUpdate
  Tx.put .flush (.rotate jti now next.jti)
  let fresh ← Tx.insertNew .flush (.session next.jti)
    (fun db => db.user_sessions.contains next.jti)
    (.addSession next.jti
      { user_id := record.user_id
        token_hash := next.token_hash
        family_id := record.family_id
        expires_at := next.expires_at
        last_used_at := none
        revoked_at := none
        rotated_at := none
        replaced_by_jti := none
        revocation_reason := none })
  if fresh then do
    referUser record.user_id
    pure (.refreshed next.jti)
  else .raise .integrity

def create_session_record (user_id : UserId) (family_id : FamilyId) (next : NextToken) :
    UserSession where
  user_id := user_id
  token_hash := next.token_hash
  family_id := family_id
  expires_at := next.expires_at
  last_used_at := none
  revoked_at := none
  rotated_at := none
  replaced_by_jti := none
  revocation_reason := none

/-- The first session of a family; the answer is in the cookies. -/
def issue_session (user_id : UserId) (family_id : FamilyId) (next : NextToken) :
    Program Outcome := do
  let fresh ← Tx.insertNew .flush (.session next.jti)
    (fun db => db.user_sessions.contains next.jti)
    (.addSession next.jti (create_session_record user_id family_id next))
  if fresh then do
    referUser user_id
    pure .nothing
  else .raise .integrity

/-- `refresh_session` once the token's record is locked. -/
def refreshRecord (payload : Payload) (refresh_token : Text) (now : Time) (next : NextToken)
    (record : UserSession) : Program Outcome := do
  if record.token_hash ≠ env.hash_token refresh_token ∨ record.user_id ≠ payload.sub then
    fail (please_log_in "REFRESH_TOKEN_INVALID")
  else
    match record.rotated_at with
    | some rotated_at =>
        if now ≤ rotated_at + env.refresh_token_reuse_grace_seconds then
          fail refresh_already_rotated
        else do
          revoke_token_family record.family_id now .refresh_token_reuse
          Tx.put .flush (.audit ⟨record.user_id, "REFRESH_TOKEN_REUSE_DETECTED"⟩)
          referUser record.user_id
          pure (.failed (please_log_in "REFRESH_TOKEN_REUSE_DETECTED")
            (some (.family record.family_id)))
    | none =>
        if record.revoked_at.isSome then fail (please_log_in "SESSION_REVOKED")
        else if record.expires_at ≤ now then do
          Tx.acquire .flush (.session payload.jti) .noKeyUpdate
          Tx.put .flush (.revoke payload.jti now .expired)
          pure (.failed (please_log_in "REFRESH_TOKEN_EXPIRED") none)
        else do
          match ← Tx.query .selectUser fun db => db.users[record.user_id]? with
          | none => revokeAndFail record.family_id now (please_log_in "USER_INACTIVE")
          | some user =>
              if user.is_active then rotateSession payload.jti record now next
              else revokeAndFail record.family_id now (inactive_account_error user)

def refresh_session (refresh_token : Text) (now : Time) (next : NextToken) : Program Outcome :=
  match env.decode_jwt refresh_token with
  | .error .expired => fail (please_log_in "REFRESH_TOKEN_EXPIRED")
  | .error .invalid => fail (please_log_in "REFRESH_TOKEN_INVALID")
  | .ok payload =>
      if payload.sub = [] ∨ payload.jti = [] then fail (please_log_in "REFRESH_TOKEN_INVALID")
      else do
        match ← selectForUpdate .selectSession (.session payload.jti)
            fun db => db.user_sessions[payload.jti]? with
        | none => fail (please_log_in "REFRESH_TOKEN_INVALID")
        | some record => refreshRecord env payload refresh_token now next record

/-- Logout -/
def revoke_current_session (refresh_token : Option Text) (now : Time) : Program Outcome :=
  match refresh_token with
  | none => pure .nothing
  | some token =>
      match env.decode_jwt token with
      | .error _ => pure .nothing
      | .ok payload => do
          match ← Tx.query .selectSession fun db => db.user_sessions[payload.jti]? with
          | none => pure .nothing
          | some record => do
              revoke_token_family record.family_id now .logout
              pure (.revoked (.family record.family_id))

def logout_all (user_id : UserId) (now : Time) : Program Outcome := do
  revoke_all_sessions user_id now .logout_all
  pure (.revoked (.user user_id))

/-- `change_password` for the user that the request's access token names. -/
def change_password (user_id : UserId) (current_password new_password : Text) (now : Time) :
    Program Outcome := do
  match ← Tx.query .selectUser fun db => db.users[user_id]? with
  | none => fail (please_log_in "INVALID_CREDENTIALS")
  | some user =>
      if user.password_hash.any (env.verify_password current_password) then do
        Tx.acquire .flush (.user user_id) .noKeyUpdate
        Tx.put .flush (.setPassword user_id (env.hash_password new_password) now)
        revoke_all_sessions user_id now .password_changed
        pure (.revoked (.user user_id))
      else
        fail (auth_error "INVALID_CREDENTIALS" "Das aktuelle Passwort ist nicht korrekt." 401)

/-- `reset_password` once token and user are locked. -/
def resetPasswordOf (token_hash : Text) (user_id : UserId) (password : Text) (now : Time) :
    Program Outcome := do
  Tx.put .flush (.setPassword user_id (env.hash_password password) now)
  Tx.put .flush (.useToken token_hash now)
  let others ← Tx.query .updateTokens fun db =>
    Table.keysWhere db.password_reset_tokens fun key token =>
      token.user_id == user_id && key != token_hash && token.used_at.isNone &&
        token.invalidated_at.isNone
  updateRows .updateTokenRow .token
    (fun db key => db.password_reset_tokens[key]?.any fun token =>
      token.user_id == user_id && key != token_hash && token.used_at.isNone &&
        token.invalidated_at.isNone)
    (fun key => .invalidateToken key now) others
  revoke_all_sessions user_id now .password_reset
  pure (.revoked (.user user_id))

def reset_password (token password : Text) (now : Time) : Program Outcome :=
  match env.validate_password_policy password with
  | some message => fail (auth_error "INVALID_PASSWORD" message 422)
  | none => do
      match ← selectForUpdate .selectToken (.token (env.hash_token token))
          fun db => db.password_reset_tokens[env.hash_token token]? with
      | none => fail (auth_error "INVALID_RESET_TOKEN" "Der Reset-Link ist ungültig." 400)
      | some record =>
          if record.used_at.isSome ∨ record.invalidated_at.isSome then
            fail (auth_error "INVALID_RESET_TOKEN" "Der Reset-Link ist ungültig." 400)
          else if record.expires_at ≤ now then
            fail (auth_error "RESET_TOKEN_EXPIRED" "Der Reset-Link ist abgelaufen." 400)
          else do
            match ← selectForUpdate .selectUser (.user record.user_id)
                fun db => db.users[record.user_id]? with
            | none => fail (auth_error "INVALID_RESET_TOKEN" "Der Reset-Link ist ungültig." 400)
            | some _ => resetPasswordOf env (env.hash_token token) record.user_id password now

/-- A token that can still be redeemed, but for its expiry -/
def PasswordResetToken.isOpen (token : PasswordResetToken) : Bool :=
  token.used_at.isNone && token.invalidated_at.isNone

def Db.get_user_by_email (db : Db) (email : Text) : Option (UserId × User) :=
  db.users.toList.find? fun user => env.sql_lower user.2.email == env.lower email

/-- `forgot_password`, whose fresh `token` goes out by mail. The second SELECT does not
    refresh the user that the first one has loaded, so `is_active` is checked once. -/
def forgot_password (email token : Text) (now : Time) : Program Outcome := do
  match ← Tx.query .selectUser fun db => db.get_user_by_email env email with
  | none => pure .nothing
  | some (user_id, user) =>
      if user.is_active then do
        match ← selectForUpdate .selectUser (.user user_id) fun db => db.users[user_id]? with
        | none => pure .nothing
        | some _ => do
            let stale ← Tx.query .updateTokens fun db =>
              Table.keysWhere db.password_reset_tokens fun _ record =>
                record.user_id == user_id && record.isOpen
            updateRows .updateTokenRow .token
              (fun db key => db.password_reset_tokens[key]?.any fun record =>
                record.user_id == user_id && record.isOpen)
              (fun key => .invalidateToken key now) stale
            let fresh ← Tx.insertNew .flush (.token (env.hash_token token))
              (fun db => db.password_reset_tokens.contains (env.hash_token token))
              (.addToken (env.hash_token token)
                { user_id := user_id
                  expires_at := now + env.password_reset_expire_minutes * 60
                  used_at := none
                  invalidated_at := none })
            if fresh then do
              referUser user_id
              pure .nothing
            else .raise .integrity
      else pure .nothing

end

inductive Call where
  | refresh (refresh_token : Text) (now : Time) (next : NextToken)
  | logout (refresh_token : Option Text) (now : Time)
  | logoutAll (user_id : UserId) (now : Time)
  | changePassword (user_id : UserId) (current_password new_password : Text) (now : Time)
  | resetPassword (token password : Text) (now : Time)

def Call.program (env : Environment) : Call → Program Outcome
  | .refresh refresh_token now next => refresh_session env refresh_token now next
  | .logout refresh_token now => revoke_current_session env refresh_token now
  | .logoutAll user_id now => logout_all user_id now
  | .changePassword user_id current_password new_password now =>
      change_password env user_id current_password new_password now
  | .resetPassword token password now => reset_password env token password now

end PackageRegistry.Auth
