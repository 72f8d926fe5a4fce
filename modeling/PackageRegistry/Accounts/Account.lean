import PackageRegistry.Accounts.Tables

/-! # Leaving

`deactivate_own_account` and `delete_own_account`. Both lock the user's row and, for a
superuser, the rows of all active superusers before they decide.
-/

namespace PackageRegistry.Accounts

open Transactions Relational
open PackageRegistry.Auth (UserId Time AuthError RevocationReason)

def account_error (code message : String) (status : Nat) : AuthError := ⟨code, message, status⟩

def auth_required : AuthError :=
  account_error "AUTH_REQUIRED" "Bitte melden Sie sich erneut an." 401

def last_superuser_required : AuthError :=
  account_error "LAST_SUPERUSER_REQUIRED"
    ("Das letzte aktive Superuser-Konto kann nicht deaktiviert ode" ++
      "r gelöscht werden. Übertragen Sie die Superuser-Berechtigung" ++
      " zunächst auf ein anderes Konto.") 409

def User.isActiveSuperuser (user : User) : Bool := user.is_superuser && user.is_active

def _lock_user_and_protect_last_superuser (user_id : UserId) : Program User := do
  match ← getForUpdate .users user_id with
  | none => fail auth_required
  | some user =>
      if user.is_superuser then do
        let active_ids ← lockWhere (.select .users) .users fun _ row => row.isActiveSuperuser
        if active_ids.length ≤ 1 then fail last_superuser_required else pure user
      else pure user

/-- `UPDATE user_sessions` of what is still alive of a user's sessions -/
def revokeSessions (user_id : UserId) (now : Time) (reason : RevocationReason) : Program Unit :=
  updateAll .user_sessions (fun row => row.user_id == user_id && row.revoked_at.isNone)
    fun row => row.revoke now reason

def User.deactivate (user : User) (now : Time) : User :=
  { user with
      is_active := false
      deactivated_at := some now
      deactivation_reason := some .SELF_DEACTIVATED }

/-- The end of a call that leaves. -/
inductive Left where
  | unchanged
  | deactivated
  | deleted (avatar_url : Option Text)
  deriving DecidableEq

/-- `audit_id` is the id of the entry in the audit log. -/
def deactivate_own_account (user_id : UserId) (now : Time) (audit_id : Text) : Program Left := do
  let user ← _lock_user_and_protect_last_superuser user_id
  if user.is_active then do
    update .users user_id (·.deactivate now)
    revokeSessions user_id now .account_deactivated
    insertAudit audit_id (ownEntry user_id "ACCOUNT_DEACTIVATED" [("self_service", "true")])
    pure .deactivated
  else pure .unchanged

/-- The rows that the database removes with a user: `ON DELETE CASCADE`. A ceremony for a
    login challenge has the user of the challenge. -/
def cascade (user_id : UserId) : Program Unit := do
  deleteAll .user_sessions (·.user_id == user_id)
  deleteAll .user_mfa_methods (·.user_id == user_id)
  deleteAll .user_mfa_recovery_codes (·.user_id == user_id)
  deleteAll .webauthn_challenges (·.user_id == some user_id)
  deleteAll .auth_mfa_challenges (·.user_id == user_id)
  deleteAll .user_webauthn_credentials (·.user_id == user_id)
  deleteAll .user_oauth_accounts (·.user_id == user_id)
  deleteAll .password_reset_tokens (·.user_id == user_id)
  deleteAll .email_verification_tokens (·.user_id == user_id)

/-- The references from the audit log and the rows that the service removes itself -/
def removeTraces (user_id : UserId) : Program Unit := do
  updateAll .auth_audit_logs (·.actor_user_id == some user_id) ({ · with actor_user_id := none })
  updateAll .auth_audit_logs (·.target_user_id == some user_id) ({ · with target_user_id := none })
  deleteAll .user_oauth_accounts (·.user_id == user_id)
  deleteAll .user_sessions (·.user_id == user_id)
  deleteAll .password_reset_tokens (·.user_id == user_id)
  deleteAll .email_verification_tokens (·.user_id == user_id)

/-- Why the user may not delete the account now, if so. -/
def reauthenticationError (env : Environment) (user : User) (current_password : Option Text)
    (authenticated_at : Option Time) (now : Time) : Option AuthError :=
  match truthy user.password_hash with
  | some password_hash =>
      if (truthy current_password).any fun password => env.verify_password password password_hash
      then none
      else some (account_error "INVALID_CURRENT_PASSWORD" "Das aktuelle Passwort ist nicht korrekt." 403)
  | none =>
      if authenticated_at.any fun at_ => now ≤ at_ + env.recent_auth_seconds then none
      else some (account_error "RECENT_AUTH_REQUIRED"
        "Ihre Anmeldung ist für diese Aktion zu alt. Bitte melden Sie sich erneut an." 403)

def delete_own_account (env : Environment) (user_id : UserId) (confirmation_text : Text)
    (current_password : Option Text) (authenticated_at : Option Time) (now : Time)
    (audit_id : Text) : Program Left := do
  if env.casefold confirmation_text.strip ≠ env.casefold (text "löschen") then
    fail (account_error "INVALID_DELETE_CONFIRMATION"
      "Bitte geben Sie zur Bestätigung LÖSCHEN ein." 422)
  else do
    let user ← _lock_user_and_protect_last_superuser user_id
    match reauthenticationError env user current_password authenticated_at now with
    | some error => fail error
    | none => do
        removeTraces user_id
        insertAudit audit_id
          ⟨none, none, "ACCOUNT_DELETED", some user_id, [("self_service", "true")]⟩
        deleteRow (.delete .users) .users user_id
        cascade user_id
        pure (.deleted user.avatar_url)

end PackageRegistry.Accounts
