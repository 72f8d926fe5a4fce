import PackageRegistry.Auth.Sessions
import PackageRegistry.Lib.Json
import PackageRegistry.Lib.RelationalRules

/-! # The tables of the accounts

Users, the factors with which they sign in, and what is in progress. The rows have the
columns that the operations read; ids, hashes and credential ids are texts. A session is
found under its `jti`, every other row under its id.
-/

namespace PackageRegistry.Accounts

open Transactions Relational
open PackageRegistry.Auth (UserId Time AuthError auth_error UserSession PasswordResetToken
  RevocationReason AccountDeactivationReason)

structure User extends Auth.User where
  email_pending : Bool
  avatar_url : Option Text
  deactivated_at : Option Time
  is_verified : Bool
  is_superuser : Bool
  last_login_at : Option Time
  deriving DecidableEq

/-- The authenticator app of a user, once it has been set up -/
structure UserMfaMethod where
  user_id : UserId
  type : String
  secret_encrypted : Text
  is_enabled : Bool
  verified_at : Option Time
  setup_expires_at : Option Time
  last_used_at : Option Time
  last_used_counter : Option Int
  deriving DecidableEq

structure UserMfaRecoveryCode where
  user_id : UserId
  code_hash : Text
  used_at : Option Time
  deriving DecidableEq

/-- A login that waits for its second factor -/
structure AuthMfaChallenge where
  user_id : UserId
  token_hash : Text
  purpose : String
  primary_method : String
  redirect_path : Option Text
  expires_at : Time
  used_at : Option Time
  invalidated_at : Option Time
  attempt_count : Nat
  deriving DecidableEq

inductive Purpose where
  | passkey_register
  | passkey_authenticate
  | passkey_step_up
  deriving DecidableEq

/-- A ceremony: what a passkey is asked to sign, and for what -/
structure WebAuthnChallenge where
  user_id : Option UserId
  mfa_challenge_id : Option Text
  token_hash : Text
  challenge : Text
  purpose : Purpose
  expires_at : Time
  used_at : Option Time
  invalidated_at : Option Time
  attempt_count : Nat
  deriving DecidableEq

structure UserWebAuthnCredential where
  user_id : UserId
  credential_id : Text
  public_key : Text
  sign_count : Nat
  name : Text
  aaguid : Option Text
  transports : Option (List Json)
  device_type : Option String
  backed_up : Option Bool
  last_used_at : Option Time

structure UserOAuthAccount where
  user_id : UserId
  provider : Text
  provider_subject : Text
  provider_email : Option Text
  provider_username : Option Text
  provider_avatar_url : Option Text
  provider_profile_url : Option Text
  updated_at : Time
  last_login_at : Option Time
  deriving DecidableEq

structure AuthAuditLog where
  actor_user_id : Option UserId
  target_user_id : Option UserId
  action : String
  resource_id : Option Text
  event_metadata : List (String × String)
  deriving DecidableEq

structure EmailVerificationToken where
  user_id : UserId
  token_hash : Text
  expires_at : Time
  used_at : Option Time
  deriving DecidableEq

inductive TableName where
  | users
  | user_sessions
  | user_mfa_methods
  | user_mfa_recovery_codes
  | auth_mfa_challenges
  | webauthn_challenges
  | user_webauthn_credentials
  | user_oauth_accounts
  | auth_audit_logs
  | email_verification_tokens
  | password_reset_tokens
  deriving DecidableEq

@[reducible] def Row : TableName → Type
  | .users => User
  | .user_sessions => UserSession
  | .user_mfa_methods => UserMfaMethod
  | .user_mfa_recovery_codes => UserMfaRecoveryCode
  | .auth_mfa_challenges => AuthMfaChallenge
  | .webauthn_challenges => WebAuthnChallenge
  | .user_webauthn_credentials => UserWebAuthnCredential
  | .user_oauth_accounts => UserOAuthAccount
  | .auth_audit_logs => AuthAuditLog
  | .email_verification_tokens => EmailVerificationToken
  | .password_reset_tokens => PasswordResetToken

/-- Values in unique indexes -/
inductive Key where
  | users_email_lower (email : Text)
  | user_mfa_methods_totp_user (user_id : UserId)
  | user_mfa_recovery_codes_code_hash (code_hash : Text)
  | auth_mfa_challenges_token_hash (token_hash : Text)
  | webauthn_challenges_token_hash (token_hash : Text)
  | user_webauthn_credentials_credential_id (credential_id : Text)
  | user_oauth_accounts_user_provider (user_id : UserId) (provider : Text)
  | user_oauth_accounts_identity (provider provider_subject : Text)
  deriving DecidableEq

inductive Sql where
  | select (table : TableName)
  | insert (table : TableName)
  | update (table : TableName)
  | delete (table : TableName)
  deriving DecidableEq

abbrev Db := Database Row
abbrev Lock := Resource TableName Key
abbrev Program (α : Type) := Statement Row Key Sql AuthError α
abbrev World (α : Type) := State Db Lock (Write Row) Sql (Failure AuthError) α

def fail {α : Type} (error : AuthError) : Program α := .raise (.error error)

/-- What the WebAuthn library returns for a new credential -/
structure Registration where
  credential_id : Text
  credential_public_key : Text
  sign_count : Nat
  aaguid : Option Text
  credential_device_type : String
  credential_backed_up : Bool

/-- What the WebAuthn library returns for a signature -/
structure Verification where
  new_sign_count : Nat
  credential_device_type : String
  credential_backed_up : Bool

/-- What the operations take from outside: hashes, text functions and settings. -/
structure Environment where
  hash_token : Text → Text
  verify_password : Text → Text → Bool
  casefold : Text → Text
  recent_auth_seconds : Nat
  /-- `str.isdigit` -/
  isdigit : Text → Bool
  /-- `Fernet.encrypt`, which draws a nonce; `none` without a valid key -/
  encrypt_mfa_secret : Text → Text → Option Text
  decrypt_mfa_secret : Text → Option Text
  recovery_code_hash : Text → Text
  /-- `pyotp.TOTP(secret).at(30 * counter)` -/
  totp_at : Text → Int → Text
  mfa_totp_valid_window : Nat
  mfa_max_attempts : Nat
  mfa_challenge_expire_seconds : Nat
  mfa_setup_expire_seconds : Nat
  base64url_to_bytes : Text → Option Text
  /-- `UUID.bytes` -/
  uuid_bytes : UserId → Text
  /-- The values of `AuthenticatorTransport` -/
  is_transport : Text → Bool
  /-- For a payload and the expected challenge, with the site's own id and origin; an
      error is the name of a `WebAuthnException`. -/
  verify_registration_response : Json → Text → Except String Registration
  /-- For a payload, the expected challenge and a public key -/
  verify_authentication_response : Json → Text → Text → Except String Verification
  webauthn_challenge_expire_seconds : Nat
  /-- `str.lower` -/
  str_lower : Text → Text
  /-- `lower` of the database, as in `uq_users_email_lower` -/
  lower : Text → Text
  capitalize : Text → Text
  sha256_hexdigest : Text → Text

/-- The readings of the clock in one call, one after the other -/
abbrev Clock := Nat → Time

/-- A text that counts as true: there, and not empty -/
def truthy (t : Option Text) : Option Text := t.filter (· ≠ [])

/-! ## Statements with their tables -/

/-- A row read by its primary key -/
def get (T : TableName) (key : Text) : Program (Option (Row T)) :=
  Tx.query (.select T) fun db => db.row T key

def find (T : TableName) (p : Row T → Bool) : Program (Option (Text × Row T)) :=
  Relational.select (.select T) T fun _ row => p row

def findAll (T : TableName) (p : Row T → Bool) : Program (List (Text × Row T)) :=
  Tx.query (.select T) fun db => (db.table T).toList.filter fun row => p row.2

/-- A row locked by its primary key -/
def getForUpdate (T : TableName) (key : Text) : Program (Option (Row T)) := do
  match ← selectForUpdate (.select T) T fun key' _ => key' == key with
  | none => pure none
  | some (_, row) => pure (some row)

def findForUpdate (T : TableName) (p : Row T → Bool) : Program (Option (Text × Row T)) :=
  selectForUpdate (.select T) T fun _ row => p row

def update (T : TableName) (key : Text) (f : Row T → Row T) : Program Unit :=
  updateRow (.update T) T key f

def updateAll (T : TableName) (p : Row T → Bool) (f : Row T → Row T) : Program Unit :=
  updateWhere (.update T) T (fun _ row => p row) f

def deleteAll (T : TableName) (p : Row T → Bool) : Program Unit :=
  deleteWhere (.delete T) T fun _ row => p row

/-- The foreign key check of a row that has just been added -/
def referTo (T : TableName) (user_id : Option UserId) : Program Unit :=
  match user_id with
  | none => pure ()
  | some user_id => refer (.insert T) .users user_id

/-- The entry of a new row in a unique index: no row with the same value is there. -/
def unique (T : TableName) (value : Key) (same : Row T → Bool) : Program Unit :=
  enter (.insert T) value fun db => (db.first T fun _ row => same row).isSome

def insert (T : TableName) (key : Text) (row : Row T) : Program Unit :=
  insertRow (.insert T) T key row

/-- A row of the audit log, whose two foreign keys may be the same -/
def insertAudit (id : Text) (entry : AuthAuditLog) : Program Unit := do
  insert .auth_audit_logs id entry
  referTo .auth_audit_logs entry.actor_user_id
  referTo .auth_audit_logs entry.target_user_id

/-- A user who acts on their own account -/
def ownEntry (user_id : UserId) (action : String) (event_metadata : List (String × String)) :
    AuthAuditLog :=
  ⟨some user_id, some user_id, action, some user_id, event_metadata⟩

def _audit (id : Text) (user_id : UserId) (action : String)
    (event_metadata : List (String × String)) : Program Unit :=
  insertAudit id (ownEntry user_id action event_metadata)

end PackageRegistry.Accounts
