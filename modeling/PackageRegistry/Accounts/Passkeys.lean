import PackageRegistry.Accounts.Mfa

/-! # Passkeys

A ceremony is started with an options request, and completed by the request that verifies
the answer of the authenticator. The WebAuthn library is part of the environment. A call
that commits a failed attempt and then raises ends with the error as its result.
-/

namespace PackageRegistry.Accounts

open Transactions Relational
open PackageRegistry.Auth (UserId Time AuthError auth_error)

/-! ## Errors -/

def passkey_challenge_invalid (message : String) (status : Nat) : AuthError :=
  auth_error "PASSKEY_CHALLENGE_INVALID" message status

def passkey_verification_failed : AuthError :=
  auth_error "PASSKEY_VERIFICATION_FAILED" "Der Passkey konnte nicht geprüft werden." 401

def passkey_already_registered : AuthError :=
  auth_error "PASSKEY_ALREADY_REGISTERED" "Dieser Passkey ist bereits registriert." 409

def mfa_login_invalid : AuthError :=
  auth_error "MFA_CHALLENGE_INVALID"
    "Die Anmeldung ist nicht mehr gültig. Bitte melden Sie sich erneut an." 400

/-- What the interpreter raises for a field of something that is not an object. -/
def attribute_error : AuthError := ⟨"AttributeError", "", 500⟩

/-! ## The payload -/

/-- `bool(value)` -/
def isTruthy : Json → Bool
  | .null => false
  | .bool value => value
  | .int value => value ≠ 0
  | .float (.finite _ significand _) => significand ≠ 0
  | .float _ => true
  | .str value => value ≠ []
  | .arr items => !items.isEmpty
  | .obj fields => !fields.isEmpty

/-- `payload.get("response", {}).get(key)` -/
def responseField (payload : Json) (key : Text) : Program (Option Json) :=
  match payload.field (text "response") with
  | none => pure none
  | some (.obj fields) => pure (fields.lookup key)
  | some _ => fail attribute_error

section

variable (env : Environment)

def _credential_id (payload : Json) : Program Text :=
  match ((payload.field (text "rawId")).filter isTruthy).orElse fun _ => payload.field (text "id") with
  | some (.str encoded) =>
      match env.base64url_to_bytes encoded with
      | some bytes => pure bytes
      | none => fail passkey_verification_failed
  | _ => fail passkey_verification_failed

/-- The user handle of the payload is for somebody else. -/
def handleRefused (user_id : UserId) (user_handle : Option Json) : Bool :=
  (user_handle.filter isTruthy).any fun
    | .str encoded => env.base64url_to_bytes encoded ≠ some (env.uuid_bytes user_id)
    | _ => true

/-! ## Ceremonies -/

structure Descriptor where
  id : Text
  transports : Option (List Text)

def _descriptor (credential : UserWebAuthnCredential) : Descriptor where
  id := credential.credential_id
  transports := (credential.transports.filter fun values => !values.isEmpty).map
    (·.filterMap fun
      | .str value => if env.is_transport value then some value else none
      | _ => none)

/-- An entry of the audit log about a user, if one is known -/
def passkeyEntry (user_id : Option UserId) (action : String)
    (event_metadata : List (String × String)) : AuthAuditLog :=
  ⟨user_id, user_id, action, user_id, event_metadata⟩

/-- The ids, the token and the challenge that a new ceremony gets -/
structure NewCeremony where
  id : Text
  token : Text
  challenge : Text

def _create_ceremony (purpose : Purpose) (new : NewCeremony) (user_id : Option UserId)
    (mfa_challenge_id : Option Text) (now : Time) : Program Unit := do
  unique .webauthn_challenges (.webauthn_challenges_token_hash (env.hash_token new.token))
    fun row => row.token_hash == env.hash_token new.token
  insert .webauthn_challenges new.id
    { user_id := user_id
      mfa_challenge_id := mfa_challenge_id
      token_hash := env.hash_token new.token
      challenge := new.challenge
      purpose := purpose
      expires_at := now + env.webauthn_challenge_expire_seconds
      used_at := none
      invalidated_at := none
      attempt_count := 0 }
  referTo .webauthn_challenges user_id
  match mfa_challenge_id with
  | none => pure ()
  | some challenge_id => refer (.insert .webauthn_challenges) .auth_mfa_challenges challenge_id

/-- The challenge and the credentials that the browser is told -/
structure CeremonyOptions where
  token : Text
  challenge : Text
  credentials : List Descriptor

def WebAuthnChallenge.invalidate (ceremony : WebAuthnChallenge) (now : Time) : WebAuthnChallenge :=
  { ceremony with invalidated_at := some now }

/-- The reading `clock 0` is the one of the check. -/
def _locked_ceremony (token : Text) (purpose : Purpose) (clock : Clock) :
    Program (Except AuthError (Text × WebAuthnChallenge)) := do
  match ← findForUpdate .webauthn_challenges fun row => row.token_hash == env.hash_token token with
  | none => fail no_longer_valid
  | some (ceremony_id, ceremony) =>
      if ceremony.purpose ≠ purpose ∨ ceremony.invalidated_at.isSome then fail no_longer_valid
      else if ceremony.used_at.isSome then
        fail (passkey_challenge_invalid "Diese Passkey-Anfrage wurde bereits verwendet." 409)
      else if ceremony.expires_at ≤ clock 0 then do
        update .webauthn_challenges ceremony_id (·.invalidate (clock 1))
        pure (.error (auth_error "PASSKEY_CHALLENGE_EXPIRED"
          "Die Passkey-Anfrage ist abgelaufen. Bitte versuchen Sie es erneut." 400))
      else pure (.ok (ceremony_id, ceremony))
where
  no_longer_valid : AuthError :=
    passkey_challenge_invalid "Die Passkey-Anfrage ist nicht mehr gültig." 400

/-! ## Registration -/

def registration_options (user_id : UserId) (new : NewCeremony) (clock : Clock) (audit_id : Text) :
    Program CeremonyOptions := do
  let credentials ← findAll .user_webauthn_credentials (·.user_id == user_id)
  _create_ceremony env .passkey_register new (some user_id) none (clock 0)
  insertAudit audit_id (passkeyEntry (some user_id) "PASSKEY_REGISTRATION_STARTED" [])
  pure ⟨new.token, new.challenge, credentials.map fun row => _descriptor env row.2⟩

/-- One more failed attempt -/
def failCeremony (ceremony_id : Text) (ceremony : WebAuthnChallenge) (entry : AuthAuditLog)
    (audit_id : Text) (error : AuthError) {α : Type} : Program (Except AuthError α) := do
  update .webauthn_challenges ceremony_id ({ · with attempt_count := ceremony.attempt_count + 1 })
  insertAudit audit_id entry
  pure (.error error)

/-- A ceremony that has been completed, and the credential of its completion -/
structure Completed where
  ceremony_id : Text
  ceremony : WebAuthnChallenge
  /-- The id of the credential's row -/
  credential_row : Text
  user_id : UserId

def verify_registration (user_id : UserId) (ceremony_token : Text) (credential_payload : Json)
    (name : Option Text) (credential_row : Text) (clock : Clock) (audit_id : Text) :
    Program (Except AuthError Completed) := do
  match ← _locked_ceremony env ceremony_token .passkey_register clock with
  | .error error => pure (.error error)
  | .ok (ceremony_id, ceremony) =>
      if ceremony.user_id ≠ some user_id then
        fail (passkey_challenge_invalid "Die Passkey-Anfrage gehört nicht zu diesem Konto." 400)
      else match env.verify_registration_response credential_payload ceremony.challenge with
      | .error reason =>
          failCeremony ceremony_id ceremony
            (passkeyEntry (some user_id) "PASSKEY_REGISTRATION_FAILED" [("reason", reason)]) audit_id
            (auth_error "PASSKEY_VERIFICATION_FAILED" "Der Passkey konnte nicht registriert werden." 400)
      | .ok verification => do
          match ← find .user_webauthn_credentials (·.credential_id == verification.credential_id) with
          | some _ =>
              failCeremony ceremony_id ceremony
                (passkeyEntry (some user_id) "PASSKEY_REGISTRATION_FAILED" [("reason", "duplicate")])
                audit_id passkey_already_registered
          | none => do
              let own ← findAll .user_webauthn_credentials (·.user_id == user_id)
              let transports ← responseField credential_payload (text "transports")
              update .webauthn_challenges ceremony_id ({ · with used_at := some (clock 1) })
              unique .user_webauthn_credentials
                (.user_webauthn_credentials_credential_id verification.credential_id)
                (·.credential_id == verification.credential_id)
              insert .user_webauthn_credentials credential_row
                { user_id := user_id
                  credential_id := verification.credential_id
                  public_key := verification.credential_public_key
                  sign_count := verification.sign_count
                  name := ((truthy name).getD (text "Passkey " ++ Text.ofNat (own.length + 1))).strip
                  aaguid := verification.aaguid
                  transports := transports.bind fun
                    | .arr items => some items
                    | _ => none
                  device_type := some verification.credential_device_type
                  backed_up := some verification.credential_backed_up
                  last_used_at := none }
              referTo .user_webauthn_credentials (some user_id)
              insertAudit audit_id (passkeyEntry (some user_id) "PASSKEY_REGISTERED"
                [("device_type", verification.credential_device_type),
                  ("backed_up", toString verification.credential_backed_up)])
              pure (.ok ⟨ceremony_id, ceremony, credential_row, user_id⟩)

/-! ## Authentication -/

/-- Options with the credentials of a user, if one is known -/
def authentication_options (user_id : Option UserId) (purpose : Purpose)
    (mfa_challenge_id : Option Text) (new : NewCeremony) (clock : Clock) : Program CeremonyOptions := do
  let credentials ← match user_id with
    | none => pure []
    | some user_id => findAll .user_webauthn_credentials (·.user_id == user_id)
  if user_id.isSome ∧ credentials.isEmpty then
    fail (auth_error "PASSKEY_NOT_FOUND" "Für dieses Konto ist kein Passkey registriert." 404)
  else do
    _create_ceremony env purpose new user_id mfa_challenge_id (clock 0)
    pure ⟨new.token, new.challenge, credentials.map fun row => _descriptor env row.2⟩

/-- `session.get`, which answers with a user that the session has loaded before. -/
def sessionGet (loaded : Option (UserId × User)) (user_id : UserId) : Program (Option User) :=
  match loaded.filter fun known => known.1 == user_id with
  | some (_, user) => pure (some user)
  | none => get .users user_id

def UserWebAuthnCredential.regresses (record : UserWebAuthnCredential) (verification : Verification) :
    Bool :=
  0 < record.sign_count && verification.new_sign_count ≤ record.sign_count

def UserWebAuthnCredential.verified (record : UserWebAuthnCredential) (verification : Verification)
    (now : Time) : UserWebAuthnCredential :=
  { record with
      sign_count :=
        if record.regresses verification then record.sign_count else verification.new_sign_count
      device_type := some verification.credential_device_type
      backed_up := some verification.credential_backed_up
      last_used_at := some now }

def failedAction (ceremony : WebAuthnChallenge) : String :=
  if ceremony.purpose = .passkey_step_up then "PASSKEY_MFA_FAILED" else "PASSKEY_LOGIN_FAILED"

/-- A counter that goes back is only reported. -/
def auditRegression (user_id : UserId) (record : UserWebAuthnCredential) (verification : Verification)
    (audit_id : Text) : Program Unit :=
  if record.regresses verification then
    insertAudit audit_id (passkeyEntry (some user_id) "PASSKEY_COUNTER_REGRESSION"
      [("previous", toString record.sign_count), ("received", toString verification.new_sign_count),
        ("device_type", verification.credential_device_type)])
  else pure ()

/-- The readings of the clock start with `clock 2`. -/
def _verify_authentication (ceremony_id : Text) (ceremony : WebAuthnChallenge)
    (credential_payload : Json) (expected_user_id : Option UserId) (loaded : Option (UserId × User))
    (clock : Clock) (audit_id : Text) : Program (Except AuthError Completed) := do
  let credential_id ← _credential_id env credential_payload
  let found ← findForUpdate .user_webauthn_credentials (·.credential_id == credential_id)
  match found.filter fun row => expected_user_id.all (· == row.2.user_id) with
  | none =>
      failCeremony ceremony_id ceremony
        (passkeyEntry ceremony.user_id (failedAction ceremony) []) audit_id passkey_verification_failed
  | some (credential_row, record) => do
      match ← sessionGet loaded record.user_id with
      | none => fail passkey_verification_failed
      | some user =>
          if user.is_active = false then fail (Auth.inactive_account_error user.toUser)
          else do
            let user_handle ← responseField credential_payload (text "userHandle")
            if handleRefused env record.user_id user_handle then fail passkey_verification_failed
            else match (env.verify_authentication_response credential_payload ceremony.challenge
                record.public_key) with
            | .error reason =>
                failCeremony ceremony_id ceremony
                  (passkeyEntry (some record.user_id) (failedAction ceremony) [("reason", reason)])
                  audit_id passkey_verification_failed
            | .ok verification => do
                auditRegression record.user_id record verification audit_id
                update .user_webauthn_credentials credential_row (·.verified verification (clock 2))
                update .webauthn_challenges ceremony_id ({ · with used_at := some (clock 3) })
                update .users record.user_id ({ · with last_login_at := some (clock 4) })
                pure (.ok ⟨ceremony_id, ceremony, credential_row, record.user_id⟩)

/-- The ids of the entries in the audit log: for the failure or the regression, and for the
    success -/
structure AuditIds where
  attempt : Text
  success : Text

def verify_passwordless_login (ceremony_token : Text) (credential_payload : Json) (clock : Clock)
    (audit : AuditIds) : Program (Except AuthError Completed) := do
  match ← _locked_ceremony env ceremony_token .passkey_authenticate clock with
  | .error error => pure (.error error)
  | .ok (ceremony_id, ceremony) => do
      match ← _verify_authentication env ceremony_id ceremony credential_payload none none clock
          audit.attempt with
      | .error error => pure (.error error)
      | .ok completed => do
          insertAudit audit.success (passkeyEntry (some completed.user_id) "PASSKEY_LOGIN_SUCCESS" [])
          pure (.ok completed)

/-- The user has been loaded by the request. -/
def verify_reauthentication (user_id : UserId) (user : User) (ceremony_token : Text)
    (credential_payload : Json) (clock : Clock) (audit : AuditIds) :
    Program (Except AuthError Completed) := do
  match ← _locked_ceremony env ceremony_token .passkey_step_up clock with
  | .error error => pure (.error error)
  | .ok (ceremony_id, ceremony) =>
      if ceremony.user_id ≠ some user_id ∨ ceremony.mfa_challenge_id ≠ none then
        fail (passkey_challenge_invalid "Die Passkey-Anfrage gehört nicht zu diesem Konto." 400)
      else do
        match ← _verify_authentication env ceremony_id ceremony credential_payload (some user_id)
            (some (user_id, user)) clock audit.attempt with
        | .error error => pure (.error error)
        | .ok completed => do
            insertAudit audit.success (passkeyEntry (some completed.user_id) "PASSKEY_MFA_SUCCESS"
              [("purpose", "reauthentication")])
            pure (.ok completed)

/-- The login challenge for a token, locked, if it can still be completed -/
def lockedChallenge (challenge_token : Text) (now : Time) : Program (Text × AuthMfaChallenge) := do
  match ← findForUpdate .auth_mfa_challenges (·.token_hash == env.hash_token challenge_token) with
  | none => fail mfa_login_invalid
  | some (challenge_id, challenge) =>
      if challenge.isOpen = false ∨ challenge.expires_at ≤ now then fail mfa_login_invalid
      else pure (challenge_id, challenge)

def mfa_options (challenge_token : Text) (new : NewCeremony) (clock : Clock) :
    Program CeremonyOptions := do
  let (challenge_id, challenge) ← lockedChallenge env challenge_token (clock 0)
  authentication_options env (some challenge.user_id) .passkey_step_up (some challenge_id) new
    fun reading => clock (reading + 1)

/-- A login that has been completed with a passkey -/
structure PasskeyVerified where
  challenge_id : Text
  completed : Completed
  primary_method : String

/-- The first reading of the clock is for the challenge. -/
def verify_mfa (challenge_token ceremony_token : Text) (credential_payload : Json) (clock : Clock)
    (audit : AuditIds) : Program (Except AuthError PasskeyVerified) := do
  let (challenge_id, challenge) ← lockedChallenge env challenge_token (clock 0)
  match ← _locked_ceremony env ceremony_token .passkey_step_up fun reading => clock (reading + 1) with
  | .error error => pure (.error error)
  | .ok (ceremony_id, ceremony) =>
      if ceremony.mfa_challenge_id ≠ some challenge_id ∨ ceremony.user_id ≠ some challenge.user_id then
        fail (passkey_challenge_invalid "Die Passkey-Anfrage gehört nicht zu dieser Anmeldung." 400)
      else do
        match ← _verify_authentication env ceremony_id ceremony credential_payload
            (some challenge.user_id) none (fun reading => clock (reading + 1)) audit.attempt with
        | .error error => pure (.error error)
        | .ok completed => do
            update .auth_mfa_challenges challenge_id ({ · with used_at := some (clock 6) })
            insertAudit audit.success (passkeyEntry (some completed.user_id) "PASSKEY_MFA_SUCCESS"
              [("primary", challenge.primary_method)])
            pure (.ok ⟨challenge_id, completed, challenge.primary_method⟩)

end

end PackageRegistry.Accounts
