import PackageRegistry.Accounts.Account

/-! # Accounts of other providers

Logins with GitHub and Google, and the links of their accounts to the users here. What
the ORM writes are the attributes that differ from the ones that were loaded. A call that
commits an entry in the audit log and then raises ends with the error as its result.
-/

namespace PackageRegistry.Accounts

open Transactions Relational
open PackageRegistry.Auth (UserId Time AuthError auth_error AccountDeactivationReason)

/-- What the provider says about its user -/
structure OAuthIdentity where
  provider : Text
  subject : Text
  email : Option Text
  email_verified : Bool
  username : Option Text
  avatar_url : Option Text
  profile_url : Option Text

def asString (t : Text) : String := String.ofList (t.map fun c => Char.ofNat c.val)

/-! ## Errors -/

def provider_label (env : Environment) (provider : Text) : String :=
  if provider = text "github" then "GitHub"
  else if provider = text "google" then "Google"
  else asString (env.capitalize provider)

def account_disabled : AuthError := auth_error "ACCOUNT_DISABLED" "Dieses Konto ist deaktiviert." 403

def oauth_email_conflict (env : Environment) (provider : Text) : AuthError :=
  auth_error "OAUTH_EMAIL_CONFLICT"
    ("Es existiert bereits ein Konto mit dieser E-Mail-Adresse. Bitte melden Sie sich zuerst an " ++
      "und verknüpfen Sie " ++ provider_label env provider ++ " anschließend im Profil.") 409

def oauth_login_failed : AuthError :=
  auth_error "OAUTH_LOGIN_FAILED" "OAuth-Anmeldung fehlgeschlagen." 409

def oauth_account_already_linked (message : String) : AuthError :=
  auth_error "OAUTH_ACCOUNT_ALREADY_LINKED" message 409

def last_auth_method : AuthError :=
  auth_error "LAST_AUTH_METHOD"
    ("Diese Verbindung kann nicht entfernt werden, da sie derzeit Ihre einzige " ++
      "Anmeldemethode ist.") 409

/-- An `IntegrityError` that nobody catches -/
def integrity_error : AuthError := ⟨"IntegrityError", "", 500⟩

/-- What a refresh raises for a row that is gone -/
def invalid_request_error : AuthError := ⟨"InvalidRequestError", "", 500⟩

/-- A part of a program that no handler is around: whatever it raises is raised for good. -/
def uncaught {α : Type} (t : Program α) : Program α :=
  t.mapError fun
    | .integrity => .error integrity_error
    | failure => failure

/-! ## What the ORM writes -/

/-- An attribute after a flush: it is written if it differs from what was loaded. -/
def written {α : Type} [DecidableEq α] (loaded new current : α) : α :=
  if new = loaded then current else new

section

variable (env : Environment)

def normalize_provider (provider : Text) : Text := env.str_lower provider.strip

/-- `update_oauth_account` and `touch_last_login` -/
def UserOAuthAccount.touched (loaded : UserOAuthAccount) (identity : OAuthIdentity) (now : Time)
    (row : UserOAuthAccount) : UserOAuthAccount :=
  { row with
      provider_email := written loaded.provider_email (truthy identity.email) row.provider_email
      provider_username := written loaded.provider_username identity.username row.provider_username
      provider_avatar_url :=
        written loaded.provider_avatar_url identity.avatar_url row.provider_avatar_url
      provider_profile_url :=
        written loaded.provider_profile_url identity.profile_url row.provider_profile_url
      updated_at := now
      last_login_at := some now }

/-- The provider vouches for the address that the user has. -/
def verify_matching_provider_email (user : User) (identity : OAuthIdentity) : Bool :=
  identity.email_verified && (truthy identity.email).any fun email =>
    env.casefold user.email.strip == env.casefold email.strip

/-- `verify_matching_provider_email` and `touch_last_login`; `updated_at` has an `onupdate`. -/
def User.touched (loaded : User) (identity : OAuthIdentity) (now : Time) (row : User) : User :=
  { row with
      is_verified := written loaded.is_verified
        (loaded.is_verified || verify_matching_provider_email env loaded identity) row.is_verified
      updated_at := now
      last_login_at := some now }

/-! ## Statements -/

def get_by_provider_subject (provider provider_subject : Text) :
    Program (Option (Text × UserOAuthAccount)) :=
  find .user_oauth_accounts fun row =>
    row.provider == normalize_provider env provider && row.provider_subject == provider_subject

def get_for_user_provider (user_id : UserId) (provider : Text) :
    Program (Option (Text × UserOAuthAccount)) :=
  find .user_oauth_accounts fun row =>
    row.user_id == user_id && row.provider == normalize_provider env provider

def get_user_by_email (email : Text) : Program (Option (UserId × User)) :=
  find .users fun row => env.lower row.email == env.str_lower email

def AccountDeactivationReason.value : AccountDeactivationReason → String
  | .SELF_DEACTIVATED => "SELF_DEACTIVATED"
  | .ADMIN_DEACTIVATED => "ADMIN_DEACTIVATED"

/-- The error of an inactive user, whose attempt has been reported -/
def ensure_user_can_authenticate (user_id : UserId) (user : User) (provider : Text) (audit_id : Text) :
    Program (Option AuthError) :=
  if user.is_active then pure none
  else do
    insertAudit audit_id (ownEntry user_id "LOGIN_BLOCKED"
      [("reason", AccountDeactivationReason.value (user.deactivation_reason.getD .ADMIN_DEACTIVATED)),
        ("provider", asString provider)])
    pure (some (Auth.inactive_account_error user.toUser))

def create_oauth_account (user_id : UserId) (identity : OAuthIdentity) (now : Time) : UserOAuthAccount where
  user_id := user_id
  provider := normalize_provider env identity.provider
  provider_subject := identity.subject
  provider_email := truthy identity.email
  provider_username := identity.username
  provider_avatar_url := identity.avatar_url
  provider_profile_url := identity.profile_url
  updated_at := now
  last_login_at := some now

/-- The flush of a new account, with the constraints of its table -/
def insertAccount (account_id : Text) (account : UserOAuthAccount) : Program Unit :=
  if account.provider = text "github" ∨ account.provider = text "google" then do
    unique .user_oauth_accounts
      (.user_oauth_accounts_identity account.provider account.provider_subject)
      fun row => row.provider == account.provider && row.provider_subject == account.provider_subject
    unique .user_oauth_accounts
      (.user_oauth_accounts_user_provider account.user_id account.provider)
      fun row => row.user_id == account.user_id && row.provider == account.provider
    insert .user_oauth_accounts account_id account
    referTo .user_oauth_accounts (some account.user_id)
  else .raise .integrity

/-! ## Logins -/

/-- The ids of what a login may add: a user, an account, and an entry in the audit log -/
structure NewIds where
  user_id : UserId
  account_id : Text
  audit_id : Text

inductive OAuthDone where
  | authenticated (user_id : UserId) (new_user : Bool)
  /-- The user is not active, and this has been reported. -/
  | blocked (error : AuthError)
  | returned (user_id : UserId) (user : User)
  | linked (account_id : Text)
  | refreshed (account_id : Text) (account : UserOAuthAccount)
  | unlinked
  | left (left : Left)

/-- A login with an account that is linked. `entry` is its entry in the audit log. -/
def linkedLogin (identity : OAuthIdentity) (found : Text × UserOAuthAccount) (absent : AuthError)
    (entry : Option (UserId → AuthAuditLog)) (now : Time) (audit_id : Text) : Program OAuthDone := do
  let (account_id, account) := found
  match ← get .users account.user_id with
  | none => fail absent
  | some user => do
      match ← ensure_user_can_authenticate account.user_id user
          (normalize_provider env identity.provider) audit_id with
      | some error => pure (.blocked error)
      | none => do
          update .users account.user_id (user.touched env identity now)
          update .user_oauth_accounts account_id (account.touched identity now)
          match entry with
          | none => pure ()
          | some entry => insertAudit audit_id (entry account.user_id)
          pure (.authenticated account.user_id false)

def placeholder_email (provider subject : Text) : Text :=
  provider ++ text "-" ++ (env.sha256_hexdigest (provider ++ text ":" ++ subject)).take 32 ++
    text "@pending.packages.stadtplaner.oklabflensburg.de"

def newUser (identity : OAuthIdentity) (now : Time) : User where
  email := (truthy identity.email).getD
    (placeholder_email env (normalize_provider env identity.provider) identity.subject)
  password_hash := none
  is_active := true
  deactivation_reason := none
  updated_at := now
  email_pending := (truthy identity.email).isNone
  avatar_url := none
  deactivated_at := none
  is_verified := (truthy identity.email).isSome && identity.email_verified
  is_superuser := false
  last_login_at := none

/-- The flush of a new user -/
def insertUser (user_id : UserId) (user : User) : Program Unit := do
  unique .users (.users_email_lower (env.lower user.email)) fun row =>
    env.lower row.email == env.lower user.email
  insert .users user_id user

/-- The user who has the address already -/
def existingUser (identity : OAuthIdentity) : Program (Option (UserId × User)) :=
  match truthy identity.email with
  | none => pure none
  | some email => get_user_by_email env email

/-- A login with an account that nobody has linked -/
def firstLogin (identity : OAuthIdentity) (clock : Clock) (new : NewIds) : Program OAuthDone := do
  let provider := normalize_provider env identity.provider
  let existing ← existingUser env identity
  if existing.isSome then fail (oauth_email_conflict env provider)
  else do
    insertUser env new.user_id (newUser env identity (clock 0))
    update .users new.user_id ({ · with last_login_at := some (clock 2), updated_at := clock 2 })
    insertAccount new.account_id (create_oauth_account env new.user_id identity (clock 1))
    insertAudit new.audit_id (ownEntry new.user_id "OAUTH_LOGIN_SUCCESS"
      [("provider", asString provider), ("new_user", "true")])
    pure (.authenticated new.user_id true)

def authenticate_oauth_identity (identity : OAuthIdentity) (clock : Clock) (new : NewIds) :
    Program OAuthDone := do
  match ← get_by_provider_subject env (normalize_provider env identity.provider) identity.subject with
  | some found =>
      uncaught (linkedLogin env identity found account_disabled
        (some fun user_id => ownEntry user_id "OAUTH_LOGIN_SUCCESS"
          [("provider", asString (normalize_provider env identity.provider))])
        (clock 0) new.audit_id)
  | none => firstLogin env identity clock new

/-- What follows an `IntegrityError`: somebody else may have linked the account. -/
def retriedLogin (identity : OAuthIdentity) (now : Time) (audit_id : Text) : Program OAuthDone := do
  match ← get_by_provider_subject env (normalize_provider env identity.provider) identity.subject with
  | none => fail oauth_login_failed
  | some found => linkedLogin env identity found oauth_login_failed none now audit_id

/-- `session.refresh` of the user who is returned -/
def refreshUser (user_id : UserId) : Program OAuthDone := do
  match ← get .users user_id with
  | none => fail invalid_request_error
  | some user => pure (.returned user_id user)

/-! ## Links -/

/-- A request whose user is known and active -/
def withUser {α : Type} (user_id : UserId) (request : User → Program α) : Program α := do
  match (← get .users user_id).filter (·.is_active) with
  | none => fail auth_required
  | some user => request user

def link_oauth_account (user_id : UserId) (user : User) (identity : OAuthIdentity) (now : Time)
    (new : NewIds) : Program OAuthDone := do
  let provider := normalize_provider env identity.provider
  let label := provider_label env provider
  let existing_identity ← get_by_provider_subject env provider identity.subject
  if existing_identity.any fun found => found.2.user_id ≠ user_id then
    fail (oauth_account_already_linked
      ("Dieses " ++ label ++ "-Konto ist bereits mit einem anderen Benutzerkonto verbunden."))
  else do
    let existing_provider ← get_for_user_provider env user_id provider
    if existing_provider.any fun found => existing_identity.all fun same => found.1 ≠ same.1 then
      fail (oauth_account_already_linked ("Ihr Konto ist bereits mit " ++ label ++ " verbunden."))
    else do
      let commit : Program OAuthDone := do
        update .users user_id (user.touched env identity now)
        let account_id ← match existing_identity with
          | some (account_id, account) => do
              update .user_oauth_accounts account_id (account.touched identity now)
              pure account_id
          | none => do
              let account := create_oauth_account env user_id identity now
              insertAccount new.account_id account
              pure new.account_id
        insertAudit new.audit_id (ownEntry user_id "OAUTH_ACCOUNT_LINKED"
          [("provider", asString provider)])
        pure (.linked account_id)
      commit.mapError fun
        | .integrity => .error (oauth_account_already_linked
            ("Dieses " ++ label ++ "-Konto ist bereits verbunden."))
        | failure => failure

/-- `session.refresh` of the account that is returned -/
def refreshAccount (account_id : Text) : Program OAuthDone := do
  match ← get .user_oauth_accounts account_id with
  | none => fail invalid_request_error
  | some account => pure (.refreshed account_id account)

/-- The user as the request has loaded it -/
def unlink_oauth_account (user_id : UserId) (user : User) (provider : Text) (audit_id : Text) :
    Program OAuthDone := do
  let normalized := normalize_provider env provider
  match ← get_for_user_provider env user_id normalized with
  | none =>
      fail (auth_error "OAUTH_ACCOUNT_NOT_LINKED" "Dieses externe Konto ist nicht verknüpft." 404)
  | some (account_id, _) => do
      let others ← findAll .user_oauth_accounts fun row =>
        row.user_id == user_id && row.provider != normalized
      if (truthy user.password_hash).isNone ∧ others.isEmpty then fail last_auth_method
      else do
        insertAudit audit_id (ownEntry user_id "OAUTH_ACCOUNT_UNLINKED"
          [("provider", asString normalized)])
        deleteRow (.delete .user_oauth_accounts) .user_oauth_accounts account_id
        pure .unlinked

end

end PackageRegistry.Accounts
