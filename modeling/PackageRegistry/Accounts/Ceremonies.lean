import PackageRegistry.Accounts.PasskeyRules
import PackageRegistry.Accounts.Superusers
import PackageRegistry.Lib.Evolution

/-! # What a ceremony is good for

Each ceremony is used once, for what it was started for. Its row says what that is, and
nothing changes this; it is locked from its check to the commit that uses it up.
-/

namespace PackageRegistry.Accounts

open Transactions Relational Runs
open PackageRegistry.Auth (UserId Time AuthError)

inductive PasskeyCall where
  | registrationOptions (user_id : UserId) (new : NewCeremony) (clock : Clock) (audit_id : Text)
  | loginOptions (new : NewCeremony) (clock : Clock)
  | reauthOptions (user_id : UserId) (new : NewCeremony) (clock : Clock)
  | mfaOptions (challenge_token : Text) (new : NewCeremony) (clock : Clock)
  | verifyRegistration (user_id : UserId) (ceremony_token : Text) (payload : Json)
      (name : Option Text) (credential_row : Text) (clock : Clock) (audit : AuditIds)
  | verifyLogin (ceremony_token : Text) (payload : Json) (clock : Clock) (audit : AuditIds)
  | verifyReauth (user_id : UserId) (ceremony_token : Text) (payload : Json) (clock : Clock)
      (audit : AuditIds)
  | verifyMfa (challenge_token ceremony_token : Text) (payload : Json) (clock : Clock)
      (audit : AuditIds)

inductive PasskeyDone where
  | started (options : CeremonyOptions)
  | completed (completed : Completed)
  | refused (error : AuthError)

def PasskeyDone.ofResult : Except AuthError Completed → PasskeyDone
  | .error error => .refused error
  | .ok ended => .completed ended

def PasskeyCall.program (env : Environment) : PasskeyCall → Program PasskeyDone
  | .registrationOptions user_id new clock audit_id => signedIn user_id fun _ => do
      let options ← registration_options env user_id new clock audit_id
      pure (.started options)
  | .loginOptions new clock => do
      let options ← authentication_options env none .passkey_authenticate none new clock
      pure (.started options)
  | .reauthOptions user_id new clock => signedIn user_id fun _ => do
      let options ← authentication_options env (some user_id) .passkey_step_up none new clock
      pure (.started options)
  | .mfaOptions challenge_token new clock => do
      let options ← mfa_options env challenge_token new clock
      pure (.started options)
  | .verifyRegistration user_id ceremony_token payload name credential_row clock audit =>
      signedIn user_id fun _ => do
        let result ← verify_registration env user_id ceremony_token payload name credential_row clock
          audit.attempt
        pure (.ofResult result)
  | .verifyLogin ceremony_token payload clock audit => do
      let result ← verify_passwordless_login env ceremony_token payload clock audit
      pure (.ofResult result)
  | .verifyReauth user_id ceremony_token payload clock audit => signedIn user_id fun user => do
      let result ← verify_reauthentication env user_id user ceremony_token payload clock audit
      pure (.ofResult result)
  | .verifyMfa challenge_token ceremony_token payload clock audit => do
      match ← verify_mfa env challenge_token ceremony_token payload clock audit with
      | .error error => pure (.refused error)
      | .ok verified => pure (.completed verified.completed)

/-- A registration that loses against a unique index is reported in the audit log. -/
def duplicateRace (user_id : UserId) (audit_id : Text) : Program PasskeyDone := do
  insertAudit audit_id
    (passkeyEntry (some user_id) "PASSKEY_REGISTRATION_FAILED" [("reason", "duplicate_race")])
  pure (.refused passkey_already_registered)

abbrev PasskeyJob := Job Db Lock (Write Row) Sql (Failure AuthError) PasskeyDone

def PasskeyCall.job (env : Environment) (call : PasskeyCall) : PasskeyJob :=
  .stage (call.program env) fun result =>
    match call, result with
    | .verifyRegistration user_id _ _ _ _ _ audit, .error .integrity =>
        some (.only (duplicateRace user_id audit.success))
    | _, _ => none

/-! ## What ceremonies are for -/

inductive Use where
  | registration (user_id : UserId)
  | login
  | reauthentication (user_id : UserId)
  | mfa (challenge_id : Text) (user_id : UserId)

def WebAuthnChallenge.isFor (ceremony : WebAuthnChallenge) : Use → Prop
  | .registration user_id =>
      ceremony.purpose = .passkey_register ∧ ceremony.user_id = some user_id
  | .login => ceremony.purpose = .passkey_authenticate
  | .reauthentication user_id =>
      ceremony.purpose = .passkey_step_up ∧ ceremony.user_id = some user_id ∧
        ceremony.mfa_challenge_id = none
  | .mfa challenge_id user_id =>
      ceremony.purpose = .passkey_step_up ∧ ceremony.user_id = some user_id ∧
        ceremony.mfa_challenge_id = some challenge_id

/-- The login challenge for a token -/
def ChallengeFor (env : Environment) (db : Db) (token challenge_id : Text) (user_id : UserId) : Prop :=
  ∃ challenge, db.row .auth_mfa_challenges challenge_id = some challenge ∧
    challenge.token_hash = env.hash_token token ∧ challenge.user_id = user_id

/-- A ceremony as it is started at this time -/
def NewCeremony.Begins (new : NewCeremony) (env : Environment) (now : Time) (id : Text)
    (ceremony : WebAuthnChallenge) : Prop :=
  id = new.id ∧ ceremony.challenge = new.challenge ∧
    ceremony.expires_at = now + env.webauthn_challenge_expire_seconds

/-- The call starts this ceremony for this use. -/
def PasskeyCall.Starts (env : Environment) (db : Db) (id : Text) (ceremony : WebAuthnChallenge)
    (use : Use) : PasskeyCall → Prop
  | .registrationOptions user_id new clock _ =>
      new.Begins env (clock 0) id ceremony ∧ use = .registration user_id
  | .loginOptions new clock => new.Begins env (clock 0) id ceremony ∧ use = .login
  | .reauthOptions user_id new clock =>
      new.Begins env (clock 0) id ceremony ∧ use = .reauthentication user_id
  | .mfaOptions challenge_token new clock =>
      new.Begins env (clock 1) id ceremony ∧ ∃ challenge_id user_id, use = .mfa challenge_id user_id ∧
        ChallengeFor env db challenge_token challenge_id user_id
  | _ => False

/-- A credential of the user has signed the challenge. -/
def Signed (env : Environment) (db : Db) (payload : Json) (completed : Completed) : Prop :=
  ∃ record verification, db.row .user_webauthn_credentials completed.credential_row = some record ∧
    record.user_id = completed.user_id ∧
    env.verify_authentication_response payload completed.ceremony.challenge record.public_key =
      .ok verification

/-- The call completes ceremonies for this use: the ceremony has not expired when it is
    checked, and the library accepts the answer for its challenge. -/
def PasskeyCall.Completes (env : Environment) (db : Db) (completed : Completed) (use : Use) :
    PasskeyCall → Prop
  | .verifyRegistration user_id _ payload _ _ clock _ =>
      use = .registration user_id ∧ completed.user_id = user_id ∧
        clock 0 < completed.ceremony.expires_at ∧
        ∃ record verification,
          db.row .user_webauthn_credentials completed.credential_row = some record ∧
          record.user_id = user_id ∧ record.public_key = verification.credential_public_key ∧
          env.verify_registration_response payload completed.ceremony.challenge = .ok verification
  | .verifyLogin _ payload clock _ =>
      use = .login ∧ clock 0 < completed.ceremony.expires_at ∧ Signed env db payload completed
  | .verifyReauth user_id _ payload clock _ =>
      use = .reauthentication user_id ∧ completed.user_id = user_id ∧
        clock 0 < completed.ceremony.expires_at ∧ Signed env db payload completed
  | .verifyMfa challenge_token _ payload clock _ =>
      (∃ challenge_id, use = .mfa challenge_id completed.user_id ∧
        ChallengeFor env db challenge_token challenge_id completed.user_id) ∧
        clock 1 < completed.ceremony.expires_at ∧ Signed env db payload completed
  | _ => False

/-! ## How the rows evolve -/

/-- What a ceremony is for stays the same, and it does not become unused again. -/
structure WebAuthnChallenge.Same (old new : WebAuthnChallenge) : Prop where
  user_id : new.user_id = old.user_id
  mfa_challenge_id : new.mfa_challenge_id = old.mfa_challenge_id
  purpose : new.purpose = old.purpose
  challenge : new.challenge = old.challenge
  expires_at : new.expires_at = old.expires_at
  used : old.used_at.isSome = true → new.used_at.isSome = true

structure UserWebAuthnCredential.Same (old new : UserWebAuthnCredential) : Prop where
  user_id : new.user_id = old.user_id
  public_key : new.public_key = old.public_key
  sign_count : old.sign_count ≤ new.sign_count

structure AuthMfaChallenge.Same (old new : AuthMfaChallenge) : Prop where
  user_id : new.user_id = old.user_id
  token_hash : new.token_hash = old.token_hash

def steadyRel : (T : TableName) → Option (Row T) → Option (Row T) → Prop
  | .webauthn_challenges => Persists WebAuthnChallenge.Same
  | .user_webauthn_credentials => Persists UserWebAuthnCredential.Same
  | .auth_mfa_challenges => Persists AuthMfaChallenge.Same
  | _ => fun _ _ => True

theorem WebAuthnChallenge.Same.refl (row : WebAuthnChallenge) : row.Same row :=
  ⟨rfl, rfl, rfl, rfl, rfl, id⟩

theorem WebAuthnChallenge.Same.trans {a b c : WebAuthnChallenge} (first : a.Same b)
    (second : b.Same c) : a.Same c :=
  ⟨second.user_id.trans first.user_id, second.mfa_challenge_id.trans first.mfa_challenge_id,
    second.purpose.trans first.purpose, second.challenge.trans first.challenge,
    second.expires_at.trans first.expires_at, fun used => second.used (first.used used)⟩

theorem UserWebAuthnCredential.Same.refl (row : UserWebAuthnCredential) : row.Same row :=
  ⟨rfl, rfl, Nat.le_refl _⟩

theorem UserWebAuthnCredential.Same.trans {a b c : UserWebAuthnCredential} (first : a.Same b)
    (second : b.Same c) : a.Same c :=
  ⟨second.user_id.trans first.user_id, second.public_key.trans first.public_key,
    Nat.le_trans first.sign_count second.sign_count⟩

theorem AuthMfaChallenge.Same.refl (row : AuthMfaChallenge) : row.Same row := ⟨rfl, rfl⟩

theorem AuthMfaChallenge.Same.trans {a b c : AuthMfaChallenge} (first : a.Same b)
    (second : b.Same c) : a.Same c :=
  ⟨second.user_id.trans first.user_id, second.token_hash.trans first.token_hash⟩

theorem WebAuthnChallenge.Same.isFor_iff {old new : WebAuthnChallenge} (same : old.Same new) {use : Use} :
    new.isFor use ↔ old.isFor use := by
  cases use with
  | registration | login | reauthentication | mfa =>
      simp only [WebAuthnChallenge.isFor, same.purpose, same.user_id, same.mfa_challenge_id]

def steady : Evolution Row where
  rel T _ := steadyRel T
  refl T _ row := by
    cases T with
    | webauthn_challenges => exact .refl WebAuthnChallenge.Same.refl row
    | user_webauthn_credentials => exact .refl UserWebAuthnCredential.Same.refl row
    | auth_mfa_challenges => exact .refl AuthMfaChallenge.Same.refl row
    | _ => trivial
  trans {T _ _ _ _} first second := by
    cases T with
    | webauthn_challenges => exact Persists.trans (by exact fun _ _ _ => WebAuthnChallenge.Same.trans) first second
    | user_webauthn_credentials => exact Persists.trans (by exact fun _ _ _ => UserWebAuthnCredential.Same.trans) first second
    | auth_mfa_challenges => exact Persists.trans (by exact fun _ _ _ => AuthMfaChallenge.Same.trans) first second
    | _ => trivial

/-- As `steady`, and no ceremony is started. -/
def quiet : Evolution Row where
  rel T key old new := steady.rel T key old new ∧ (T = .webauthn_challenges → old = none → new = none)
  refl T key row := ⟨steady.refl T key row, fun _ free => free⟩
  trans first second :=
    ⟨steady.trans first.1 second.1, fun is_ceremony free => second.2 is_ceremony (first.2 is_ceremony free)⟩

theorem quiet_update {T : TableName} {key : Text} {g : Row T → Row T}
    (keeps : ∀ row, steady.rel T key (some row) (some (g row))) : quiet.Keeps ⟨T, key, .update g⟩ :=
  Evolution.keeps_update fun row => ⟨keeps row, fun _ there => by cases there⟩

theorem quiet_ceremony {key : Text} {g : WebAuthnChallenge → WebAuthnChallenge}
    (keeps : ∀ row : WebAuthnChallenge, row.Same (g row)) : quiet.Keeps ⟨.webauthn_challenges, key, .update g⟩ :=
  quiet_update fun row => persists_some (keeps row)

theorem quiet_audit {key : Text} {row : AuthAuditLog} :
    quiet.Keeps ⟨.auth_audit_logs, key, .insert row⟩ :=
  fun _ => ⟨trivial, fun is_ceremony => by cases is_ceremony⟩

/-! ## What a call has done when it commits -/

section

variable {env : Environment} {call : PasskeyCall} {fin : Db} {pending : List (Write Row)}
  {held : Held Lock}

structure PasskeyEnd (env : Environment) (call : PasskeyCall) (done : PasskeyDone) (fin : Db)
    (pending : List (Write Row)) (held : Held Lock) : Prop where
  covered : AllCovered nothingNeeded held pending
  far : steady.Far fin pending
  begun : ∀ id ceremony, fin.row .webauthn_challenges id = none →
    rowAfter pending .webauthn_challenges id (fin.row .webauthn_challenges id) = some ceremony →
    ∃ options use, done = .started options ∧ ceremony.isFor use ∧
      call.Starts env fin id ceremony use
  ended : ∀ completed, done = .completed completed →
    fin.row .webauthn_challenges completed.ceremony_id = some completed.ceremony ∧
      completed.ceremony.used_at = none ∧
      (∃ ceremony, rowAfter pending .webauthn_challenges completed.ceremony_id
        (fin.row .webauthn_challenges completed.ceremony_id) = some ceremony ∧
          ceremony.used_at.isSome = true) ∧
      ∃ use, completed.ceremony.isFor use ∧
        call.Completes env (view Database.apply fin pending) completed use

def passkeyEnds (env : Environment) (call : PasskeyCall) (_ : List PasskeyDone) : Ending PasskeyDone
  | .ok done, fin, pending, held => PasskeyEnd env call done fin pending held
  | .error _, _, _, _ => True

abbrev Verifies (env : Environment) (call : PasskeyCall) (t : Program PasskeyDone) (fin : Db)
    (pending : List (Write Row)) (held : Held Lock) : Prop :=
  Closing nothingNeeded unrestrained (passkeyEnds env call []) t fin pending held

/-- No ceremony is started. -/
theorem begun_nothing (far : quiet.Far fin pending) {id : Text} {ceremony : WebAuthnChallenge}
    (free : fin.row .webauthn_challenges id = none)
    (there : rowAfter pending .webauthn_challenges id (fin.row .webauthn_challenges id) =
      some ceremony) : False := by
  have none_there := (far .webauthn_challenges id).2 rfl free
  rw [there] at none_there
  cases none_there

theorem refused_end {error : AuthError} (covered : AllCovered nothingNeeded held pending)
    (far : quiet.Far fin pending) : PasskeyEnd env call (.refused error) fin pending held :=
  ⟨covered, fun T key => (far T key).1, fun _ _ free there => (begun_nothing far free there).elim,
    fun _ ended => by cases ended⟩

/-! ### Starting a ceremony -/

theorem begins_same {new : NewCeremony} {now : Time} {id : Text} {ceremony ceremony' : WebAuthnChallenge}
    (same : ceremony.Same ceremony') (h : new.Begins env now id ceremony) :
    new.Begins env now id ceremony' :=
  ⟨h.1, same.challenge.trans h.2.1, same.expires_at.trans h.2.2⟩

theorem starts_same {id : Text} {ceremony ceremony' : WebAuthnChallenge} {use : Use}
    (same : ceremony.Same ceremony') (h : call.Starts env fin id ceremony use) :
    call.Starts env fin id ceremony' use := by
  cases call with
  | registrationOptions | loginOptions | reauthOptions | mfaOptions =>
      exact ⟨begins_same same h.1, h.2⟩
  | _ => exact h

theorem nothingNeeded_free : PasskeysFree nothingNeeded :=
  ⟨fun _ _ _ => id, fun _ _ _ => id, fun _ _ _ => id, fun _ _ _ => id⟩

theorem started_end {options : CeremonyOptions} {id : Text} {ceremony : WebAuthnChallenge} {use : Use}
    {reports : List (Write Row)} (free : fin.row .webauthn_challenges id = none)
    (fits : ceremony.isFor use) (starts : call.Starts env fin id ceremony use)
    (covered : AllCovered nothingNeeded held (⟨.webauthn_challenges, id, .insert ceremony⟩ :: reports))
    (reported : ∀ w ∈ reports, quiet.Keeps w) :
    PasskeyEnd env call (.started options) fin
      (⟨.webauthn_challenges, id, .insert ceremony⟩ :: reports) held := by
  have first : steady.Far fin [⟨.webauthn_challenges, id, .insert ceremony⟩] :=
    Evolution.far_insert free persists_none
  refine ⟨covered, first.append fun w mem row => (reported w mem row).1, ?_, fun _ ended => by cases ended⟩
  intro id' new absent there
  have quietly : ∀ row, quiet.rel .webauthn_challenges id' row
      (rowAfter reports .webauthn_challenges id' row) :=
    Evolution.rowAfter_keeps reported .webauthn_challenges id'
  rw [rowAfter_cons, onRow_same] at there
  split at there
  · rename_i same
    subst same
    obtain ⟨new', here, same⟩ := (quietly (some ceremony)).1 ceremony rfl
    obtain rfl := Option.some.inj (there.symm.trans here)
    exact ⟨options, use, rfl, same.isFor_iff.mpr fits, starts_same same starts⟩
  · rw [absent, (quietly none).2 rfl rfl] at there
    cases there

/-- What is left to do after a ceremony has been started -/
theorem options_ends {options : CeremonyOptions} {purpose : Purpose} {new : NewCeremony}
    {user_id : Option UserId} {mfa_challenge_id : Option Text} {now : Time} {use : Use}
    {rest : Program Unit} (reports : Adds nothingNeeded unrestrained quiet.Keeps rest)
    (fits : ∀ ceremony : WebAuthnChallenge, ceremony.purpose = purpose → ceremony.user_id = user_id →
      ceremony.mfa_challenge_id = mfa_challenge_id → ceremony.isFor use)
    (starts : ∀ ceremony, new.Begins env now new.id ceremony → call.Starts env fin new.id ceremony use) :
    Verifies env call ((_create_ceremony env purpose new user_id mfa_challenge_id now).bind fun _ =>
      rest.bind fun _ => .done (.started options)) fin [] held := by
  refine create_ceremony_ends nothingNeeded_free (fun _ _ _ => trivial)
    fun ceremony held' kept absent has_purpose has_user has_mfa has_challenge has_expiry
      covered => ?_
  refine reports.ends (fun _ _ _ => trivial) fun _ written held'' more quietly reported => ?_
  refine started_end absent (fits ceremony has_purpose has_user has_mfa)
    (starts ceremony ⟨rfl, has_challenge, has_expiry⟩) ?_ quietly
  exact fun w mem => (List.mem_cons.mp mem).elim (fun same => same ▸ covered.among more) (reported w)

theorem authentication_options_ends {purpose : Purpose} {new : NewCeremony} {user_id : Option UserId}
    {mfa_challenge_id : Option Text} {clock : Clock} {use : Use}
    (fits : ∀ ceremony : WebAuthnChallenge, ceremony.purpose = purpose → ceremony.user_id = user_id →
      ceremony.mfa_challenge_id = mfa_challenge_id → ceremony.isFor use)
    (starts : ∀ ceremony, new.Begins env (clock 0) new.id ceremony →
      call.Starts env fin new.id ceremony use) :
    Verifies env call ((authentication_options env user_id purpose mfa_challenge_id new clock).bind
      fun options => .done (.started options)) fin [] held := by
  have ends : ∀ credentials : List (Text × UserWebAuthnCredential), Verifies env call
      (Tx.bind (if user_id.isSome ∧ credentials.isEmpty then
          fail (Auth.auth_error "PASSKEY_NOT_FOUND" "Für dieses Konto ist kein Passkey registriert." 404)
        else (_create_ceremony env purpose new user_id mfa_challenge_id (clock 0)).bind fun _ =>
          .done ⟨new.token, new.challenge, credentials.map fun row => _descriptor env row.2⟩)
        fun options => .done (.started options)) fin [] held := by
    intro credentials
    split
    · trivial
    · rw [Tx.bind_assoc]
      have nothing_left : Adds nothingNeeded unrestrained quiet.Keeps (.done () : Program Unit) := adds_pure _
      exact options_ends nothing_left fits starts
  unfold authentication_options
  simp only [Tx.bind_eq]
  split
  · exact ends []
  · rw [Tx.bind_assoc]
    exact findAll_ends fun _ credentials _ _ => ends credentials

theorem registration_options_ends {user_id : UserId} {new : NewCeremony} {clock : Clock}
    {audit_id : Text} (starts : ∀ ceremony, new.Begins env (clock 0) new.id ceremony →
      call.Starts env fin new.id ceremony (.registration user_id)) :
    Verifies env call ((registration_options env user_id new clock audit_id).bind
      fun options => .done (.started options)) fin [] held := by
  unfold registration_options
  simp only [Tx.bind_eq, Tx.bind_assoc]
  refine findAll_ends fun _ credentials _ _ => ?_
  refine options_ends (adds_insertAudit (fun _ _ => id) quiet_audit) (fun _ purpose user _ => ?_) starts
  exact ⟨purpose, user⟩

/-! ### Completing a ceremony -/

theorem quiet_attempt {ceremony_id : Text} {w : Write Row} (h : AttemptWrite ceremony_id w) :
    quiet.Keeps w := by
  rcases h with ⟨attempts, rfl⟩ | ⟨id, entry, rfl⟩
  · exact quiet_ceremony fun row => ⟨rfl, rfl, rfl, rfl, rfl, id⟩
  · exact quiet_audit

theorem UserWebAuthnCredential.Same.verified (record : UserWebAuthnCredential)
    (verification : Verification) (now : Time) : record.Same (record.verified verification now) := by
  refine ⟨rfl, rfl, ?_⟩
  by_cases back : record.regresses verification = true
  · simp [UserWebAuthnCredential.verified, back]
  · have bound : 0 < record.sign_count → record.sign_count < verification.new_sign_count := by
      simpa [UserWebAuthnCredential.regresses] using back
    simp only [UserWebAuthnCredential.verified, back]
    grind

theorem quiet_signed {ceremony_id credential_row : Text} {user_id : UserId}
    {verification : Verification} {clock : Clock} :
    ∀ w ∈ signedWrites ceremony_id credential_row user_id verification clock, quiet.Keeps w := by
  intro w mem
  simp only [signedWrites, List.mem_cons, List.not_mem_nil, or_false] at mem
  rcases mem with rfl | rfl | rfl
  · exact quiet_update fun row => persists_some (.verified row verification _)
  · exact quiet_ceremony fun row => ⟨rfl, rfl, rfl, rfl, rfl, fun _ => rfl⟩
  · exact quiet_update fun _ => trivial

/-- A signature has been accepted, and what is written after that is quiet. -/
theorem signed_end {ceremony_id credential_row : Text} {ceremony : WebAuthnChallenge} {payload : Json}
    {record : UserWebAuthnCredential} {verification : Verification} {clock : Clock} {use : Use}
    {reports more : List (Write Row)}
    (there : fin.row .webauthn_challenges ceremony_id = some ceremony)
    (unused : ceremony.used_at = none) (fits : ceremony.isFor use)
    (here : fin.row .user_webauthn_credentials credential_row = some record)
    (signed : env.verify_authentication_response payload ceremony.challenge record.public_key =
      .ok verification)
    (reported : ∀ w ∈ reports, ∃ id entry, w = ⟨.auth_audit_logs, id, .insert entry⟩)
    (quietly : ∀ w ∈ more, quiet.Keeps w)
    (covered : AllCovered nothingNeeded held
      (reports ++ signedWrites ceremony_id credential_row record.user_id verification clock ++ more))
    (completes : ∀ db, quiet.Across fin db →
      Signed env db payload ⟨ceremony_id, ceremony, credential_row, record.user_id⟩ →
      call.Completes env db ⟨ceremony_id, ceremony, credential_row, record.user_id⟩ use) :
    PasskeyEnd env call (.completed ⟨ceremony_id, ceremony, credential_row, record.user_id⟩) fin
      (reports ++ signedWrites ceremony_id credential_row record.user_id verification clock ++ more)
      held := by
  have keeps : ∀ w ∈ reports ++ signedWrites ceremony_id credential_row record.user_id verification
      clock ++ more, quiet.Keeps w := by
    intro w mem
    simp only [List.mem_append] at mem
    rcases mem with (report | sign) | later
    · obtain ⟨id, entry, rfl⟩ := reported w report
      exact quiet_audit
    · exact quiet_signed w sign
    · exact quietly w later
  have far : quiet.Far fin _ := Evolution.far_of_keeps keeps
  refine ⟨covered, fun T key => (far T key).1,
    fun _ _ free appears => (begun_nothing far free appears).elim, ?_⟩
  rintro completed ⟨⟩
  refine ⟨there, unused, ?_, use, fits, completes _ far.across ?_⟩
  · have away : ∀ w ∈ reports, w.table = .webauthn_challenges → w.key ≠ ceremony_id := by
      intro w mem same
      obtain ⟨id, entry, rfl⟩ := reported w mem
      cases same
    have used : rowAfter (reports ++ signedWrites ceremony_id credential_row record.user_id verification
        clock) .webauthn_challenges ceremony_id (fin.row .webauthn_challenges ceremony_id) =
          some { ceremony with used_at := some (clock 3) } := by
      rw [rowAfter_append, rowAfter_untouched away, there]
      simp [signedWrites, Change.on]
    obtain ⟨row, after, same⟩ := (Evolution.rowAfter_keeps quietly .webauthn_challenges ceremony_id
      (some { ceremony with used_at := some (clock 3) })).1 _ rfl
    refine ⟨row, ?_, same.used rfl⟩
    rw [rowAfter_append, used]
    exact after
  · obtain ⟨record', after, same⟩ := (far .user_webauthn_credentials credential_row).1 record here
    refine ⟨record', verification, (view_row ..).trans after, same.user_id, ?_⟩
    rw [same.public_key]
    exact signed

theorem expired_end {ceremony_id : Text} {now : Time} {error : AuthError} :
    PasskeyEnd env call (.refused error) fin
      [⟨.webauthn_challenges, ceremony_id, .update (·.invalidate now)⟩]
      ((.row .webauthn_challenges ceremony_id, .noKeyUpdate) :: held) := by
  refine refused_end (fun w mem => ?_) (Evolution.far_of_keeps fun w mem => ?_)
  · rw [List.mem_singleton.mp mem]
    exact covered_update (locks_of_mem (by simp)) fun _ _ _ => id
  · rw [List.mem_singleton.mp mem]
    exact quiet_ceremony fun row => ⟨rfl, rfl, rfl, rfl, rfl, id⟩

/-- The answer of the authenticator is verified for a ceremony that is locked and unused. -/
theorem verify_ends {id audit_id : Text} {ceremony : WebAuthnChallenge} {payload : Json}
    {expected_user_id : Option UserId} {loaded : Option (UserId × User)} {clock : Clock} {use : Use}
    {f : Except AuthError Completed → Program PasskeyDone} (rest : Completed → Program Unit)
    (there : fin.row .webauthn_challenges id = some ceremony) (unused : ceremony.used_at = none)
    (fits : ceremony.isFor use) (failed : ∀ error, f (.error error) = .done (.refused error))
    (succeeds : ∀ ended, f (.ok ended) = (rest ended).bind fun _ => .done (.completed ended))
    (quietly : ∀ ended, Adds nothingNeeded unrestrained quiet.Keeps (rest ended))
    (completes : ∀ db ended, quiet.Across fin db → ended.ceremony = ceremony →
      (∀ user_id, expected_user_id = some user_id → user_id = ended.user_id) →
      Signed env db payload ended → call.Completes env db ended use) :
    Verifies env call ((_verify_authentication env id ceremony payload expected_user_id loaded clock
      audit_id).bind f) fin [] held := by
  refine verify_authentication_ends nothingNeeded_free (fun _ _ _ => trivial)
    (fun error written held' _ kinds covered => ?_)
    fun credential_row record verification reports held' _ here expected signed reported covered => ?_
  · rw [failed]
    exact refused_end covered (Evolution.far_of_keeps fun w mem => quiet_attempt (kinds w mem))
  · rw [succeeds]
    refine (quietly _).ends (fun _ _ _ => trivial) fun _ more held'' kept keeps covered' => ?_
    refine signed_end there unused fits here signed reported keeps ((covered.among kept).append covered')
      fun db across accepted => completes db _ across rfl expected accepted

/-- The entry for a success -/
theorem success_quiet {success : Text} {entry : AuthAuditLog} :
    Adds nothingNeeded unrestrained quiet.Keeps (insertAudit success entry) :=
  adds_insertAudit (fun _ _ => id) quiet_audit

theorem verifyLogin_ends {ceremony_token : Text} {payload : Json} {clock : Clock} {audit : AuditIds} :
    Verifies env (.verifyLogin ceremony_token payload clock audit)
      ((PasskeyCall.verifyLogin ceremony_token payload clock audit).program env) fin [] [] := by
  unfold PasskeyCall.program verify_passwordless_login
  simp only [Tx.bind_eq, Tx.bind_assoc]
  refine locked_ceremony_ends (fun _ _ _ => trivial) (fun _ _ => expired_end)
    fun id ceremony there purpose unused early => ?_
  simp only [Tx.bind_assoc]
  have fits : ceremony.isFor .login := purpose
  refine verify_ends
    (fun ended => insertAudit audit.success (passkeyEntry (some ended.user_id) "PASSKEY_LOGIN_SUCCESS" []))
    there unused fits (fun _ => rfl) (fun _ => ?_) (fun _ => success_quiet)
    fun db ended _ same _ signed => ?_
  · simp only [Tx.bind_assoc]
    rfl
  · exact ⟨rfl, same ▸ early, signed⟩

theorem verifyReauth_ends {user_id : UserId} {ceremony_token : Text} {payload : Json} {clock : Clock}
    {audit : AuditIds} :
    Verifies env (.verifyReauth user_id ceremony_token payload clock audit)
      ((PasskeyCall.verifyReauth user_id ceremony_token payload clock audit).program env) fin [] [] := by
  refine signedIn_ends (fun _ => trivial) fun user => ?_
  unfold verify_reauthentication
  simp only [Tx.bind_eq, Tx.bind_assoc]
  refine locked_ceremony_ends (fun _ _ _ => trivial) (fun _ _ => expired_end)
    fun id ceremony there purpose unused early => ?_
  dsimp only
  split
  · trivial
  · rename_i own
    obtain ⟨owner, plain⟩ : ceremony.user_id = some user_id ∧ ceremony.mfa_challenge_id = none := by
      simpa using own
    simp only [Tx.bind_assoc]
    have fits : ceremony.isFor (.reauthentication user_id) := ⟨purpose, owner, plain⟩
    refine verify_ends
      (fun ended => insertAudit audit.success (passkeyEntry (some ended.user_id) "PASSKEY_MFA_SUCCESS"
        [("purpose", "reauthentication")]))
      there unused fits (fun _ => rfl) (fun _ => ?_) (fun _ => success_quiet)
      fun db ended _ same expected signed => ?_
    · simp only [Tx.bind_assoc]
      rfl
    · exact ⟨rfl, (expected user_id rfl).symm, same ▸ early, signed⟩

theorem verifyMfa_ends {challenge_token ceremony_token : Text} {payload : Json} {clock : Clock}
    {audit : AuditIds} :
    Verifies env (.verifyMfa challenge_token ceremony_token payload clock audit)
      ((PasskeyCall.verifyMfa challenge_token ceremony_token payload clock audit).program env)
      fin [] [] := by
  unfold PasskeyCall.program verify_mfa
  simp only [Tx.bind_eq, Tx.bind_assoc]
  refine lockedChallenge_ends (fun _ _ _ => trivial) fun challenge_id challenge found token _ _ => ?_
  dsimp only
  refine locked_ceremony_ends (fun _ _ _ => trivial) (fun _ _ => expired_end)
    fun id ceremony there purpose unused early => ?_
  dsimp only
  split
  · trivial
  · rename_i own
    obtain ⟨bound, owner⟩ : ceremony.mfa_challenge_id = some challenge_id ∧
        ceremony.user_id = some challenge.user_id := by simpa using own
    simp only [Tx.bind_assoc]
    have fits : ceremony.isFor (.mfa challenge_id challenge.user_id) := ⟨purpose, owner, bound⟩
    refine verify_ends
      (fun ended => do
        update .auth_mfa_challenges challenge_id ({ · with used_at := some (clock 6) })
        insertAudit audit.success (passkeyEntry (some ended.user_id) "PASSKEY_MFA_SUCCESS"
          [("primary", challenge.primary_method)]))
      there unused fits (fun _ => rfl) (fun _ => ?_) (fun _ => ?_)
      fun db ended across same expected signed => ?_
    · simp only [Tx.bind_eq, Tx.bind_assoc]
      rfl
    · refine .bind ?_ fun _ => success_quiet
      refine adds_update (fun _ _ _ needed => needed) ?_
      exact quiet_update fun _ => persists_some ⟨rfl, rfl⟩
    · obtain ⟨challenge', after, kept⟩ := (across .auth_mfa_challenges challenge_id).1 challenge found
      refine ⟨⟨challenge_id, ?_, challenge', after, kept.token_hash.trans token, ?_⟩, same ▸ early, signed⟩
      · rw [expected challenge.user_id rfl]
      · exact kept.user_id.trans (expected challenge.user_id rfl)

/-- A ceremony is used up for a new credential. -/
theorem registered_end {ceremony_id credential_row : Text} {user_id : UserId} {ceremony : WebAuthnChallenge}
    {record : UserWebAuthnCredential} {now : Time} {use : Use} {reports : List (Write Row)}
    (there : fin.row .webauthn_challenges ceremony_id = some ceremony)
    (unused : ceremony.used_at = none) (fits : ceremony.isFor use)
    (free : fin.row .user_webauthn_credentials credential_row = none)
    (quietly : ∀ w ∈ reports, quiet.Keeps w)
    (covered : AllCovered nothingNeeded held
      (⟨.webauthn_challenges, ceremony_id, .update ({ · with used_at := some now })⟩ ::
        ⟨.user_webauthn_credentials, credential_row, .insert record⟩ :: reports))
    (completes : ∀ db record', db.row .user_webauthn_credentials credential_row = some record' →
      record.Same record' →
      call.Completes env db ⟨ceremony_id, ceremony, credential_row, user_id⟩ use) :
    PasskeyEnd env call (.completed ⟨ceremony_id, ceremony, credential_row, user_id⟩) fin
      (⟨.webauthn_challenges, ceremony_id, .update ({ · with used_at := some now })⟩ ::
        ⟨.user_webauthn_credentials, credential_row, .insert record⟩ :: reports) held := by
  have used : quiet.Keeps ⟨.webauthn_challenges, ceremony_id, .update ({ · with used_at := some now })⟩ :=
    quiet_ceremony fun row => ⟨rfl, rfl, rfl, rfl, rfl, fun _ => rfl⟩
  have first : quiet.Far fin
      [⟨.webauthn_challenges, ceremony_id, .update ({ · with used_at := some now })⟩] :=
    Evolution.far_of_keeps fun w mem => List.mem_singleton.mp mem ▸ used
  have second : quiet.Far fin
      [⟨.webauthn_challenges, ceremony_id, .update ({ · with used_at := some now })⟩,
        ⟨.user_webauthn_credentials, credential_row, .insert record⟩] := by
    have new : quiet.rel .user_webauthn_credentials credential_row none (some record) :=
      ⟨persists_none, fun same => by cases same⟩
    refine first.insert ?_ new
    simpa using free
  have far := second.append quietly
  refine ⟨covered, fun T key => (far T key).1,
    fun _ _ free appears => (begun_nothing far free appears).elim, ?_⟩
  rintro ended ⟨⟩
  have rows := Evolution.rowAfter_keeps quietly
  refine ⟨there, unused, ?_, use, fits, ?_⟩
  · obtain ⟨row, after, same⟩ := (rows .webauthn_challenges ceremony_id
      (some { ceremony with used_at := some now })).1 _ rfl
    refine ⟨row, ?_, same.used rfl⟩
    rw [there]
    simpa [Change.on] using after
  · obtain ⟨record', after, same⟩ := (rows .user_webauthn_credentials credential_row
      (some record)).1 record rfl
    refine completes _ record' ?_ same
    rw [view_row, free]
    simpa [Change.on] using after

theorem verifyRegistration_ends {user_id : UserId} {ceremony_token : Text} {payload : Json}
    {name : Option Text} {credential_row : Text} {clock : Clock} {audit : AuditIds} :
    Verifies env (.verifyRegistration user_id ceremony_token payload name credential_row clock audit)
      ((PasskeyCall.verifyRegistration user_id ceremony_token payload name credential_row clock
        audit).program env) fin [] [] := by
  have fails : ∀ {call : PasskeyCall} {id : Text} {ceremony : WebAuthnChallenge} {entry : AuthAuditLog}
      {error : AuthError} {held : Held Lock}, Verifies env call
      ((failCeremony id ceremony entry audit.attempt error).bind fun result =>
        .done (PasskeyDone.ofResult result)) fin [] held := by
    intro call id ceremony entry error held
    refine failCeremony_ends nothingNeeded_free (fun _ _ _ => trivial) fun written held' _ kinds covered => ?_
    exact refused_end covered (Evolution.far_of_keeps fun w mem => quiet_attempt (kinds w mem))
  refine signedIn_ends (fun _ => trivial) fun _ => ?_
  unfold verify_registration
  simp only [Tx.bind_eq, Tx.bind_assoc]
  refine locked_ceremony_ends (fun _ _ _ => trivial) (fun _ _ => expired_end)
    fun ceremony_id ceremony there purpose unused early => ?_
  dsimp only
  split
  · trivial
  · rename_i own
    have owner : ceremony.user_id = some user_id := by simpa using own
    split
    · exact fails
    · rename_i verification accepted
      simp only [Tx.bind_assoc]
      refine find_ends (fun _ _ _ => ?_) fun _ _ _ _ _ _ => fails
      simp only [Tx.bind_assoc]
      refine findAll_ends fun _ own _ _ => ?_
      refine responseField_ends (fun _ => trivial) fun transports => ?_
      refine update_ends (fun _ _ _ => trivial) fun _ _ => enter_ends trivial fun _ _ _ =>
        insertRow_ends trivial fun absent => ?_
      refine referTo_ends (fun _ _ _ => trivial) fun held₁ more _ => ?_
      refine success_quiet.ends (fun _ _ _ => trivial) fun _ reports held₂ kept quietly reported => ?_
      have free : fin.row .user_webauthn_credentials credential_row = none := by
        simpa using absent
      have fits : ceremony.isFor (.registration user_id) := ⟨purpose, owner⟩
      refine registered_end there unused fits free quietly (fun w mem => ?_)
        fun db record' after same => ⟨rfl, rfl, early, record', verification, after, same.user_id,
          same.public_key, accepted⟩
      simp only [List.mem_cons] at mem
      rcases mem with rfl | rfl | later
      · exact covered_update (locks_of_mem (kept _ (more _ (by simp)))) fun _ _ _ => id
      · exact covered_insert (kept _ (more _ (by simp))) fun _ _ => False.elim
      · exact reported w later

theorem mfaOptions_ends {challenge_token : Text} {new : NewCeremony} {clock : Clock} :
    Verifies env (.mfaOptions challenge_token new clock)
      ((PasskeyCall.mfaOptions challenge_token new clock).program env) fin [] [] := by
  unfold PasskeyCall.program mfa_options
  simp only [Tx.bind_eq, Tx.bind_assoc]
  refine lockedChallenge_ends (fun _ _ _ => trivial) fun challenge_id challenge found token _ _ => ?_
  have starts : ∀ ceremony, new.Begins env (clock 1) new.id ceremony →
      (PasskeyCall.mfaOptions challenge_token new clock).Starts env fin new.id ceremony
        (.mfa challenge_id challenge.user_id) :=
    fun _ begins => ⟨begins, challenge_id, challenge.user_id, rfl, challenge, found, token, rfl⟩
  refine authentication_options_ends (fun _ purpose user bound => ?_) starts
  exact ⟨purpose, user, bound⟩

theorem loginOptions_ends {new : NewCeremony} {clock : Clock} :
    Verifies env (.loginOptions new clock) ((PasskeyCall.loginOptions new clock).program env)
      fin [] [] := by
  have starts : ∀ ceremony, new.Begins env (clock 0) new.id ceremony →
      (PasskeyCall.loginOptions new clock).Starts env fin new.id ceremony .login :=
    fun _ begins => ⟨begins, rfl⟩
  refine authentication_options_ends (fun _ purpose _ _ => ?_) starts
  exact purpose

theorem reauthOptions_ends {user_id : UserId} {new : NewCeremony} {clock : Clock} :
    Verifies env (.reauthOptions user_id new clock)
      ((PasskeyCall.reauthOptions user_id new clock).program env) fin [] [] := by
  have starts : ∀ ceremony, new.Begins env (clock 0) new.id ceremony →
      (PasskeyCall.reauthOptions user_id new clock).Starts env fin new.id ceremony
        (.reauthentication user_id) := fun _ begins => ⟨begins, rfl⟩
  refine signedIn_ends (fun _ => trivial) fun _ => ?_
  refine authentication_options_ends (fun _ purpose user plain => ?_) starts
  exact ⟨purpose, user, plain⟩

theorem passkeyCall_ends (env : Environment) (call : PasskeyCall) (fin : Db) :
    Verifies env call (call.program env) fin [] [] := by
  cases call with
  | registrationOptions user_id new clock audit_id =>
      exact signedIn_ends (fun _ => trivial) fun _ =>
        registration_options_ends fun _ begins => ⟨begins, rfl⟩
  | loginOptions => exact loginOptions_ends
  | reauthOptions => exact reauthOptions_ends
  | mfaOptions => exact mfaOptions_ends
  | verifyRegistration => exact verifyRegistration_ends
  | verifyLogin => exact verifyLogin_ends
  | verifyReauth => exact verifyReauth_ends
  | verifyMfa => exact verifyMfa_ends

end

/-! ## Runs -/

section

variable {env : Environment} {a b : Db}

theorem ChallengeFor.mono {token challenge_id : Text} {user_id : UserId} (across : steady.Across a b)
    (h : ChallengeFor env a token challenge_id user_id) : ChallengeFor env b token challenge_id user_id := by
  obtain ⟨challenge, here, hash, owner⟩ := h
  obtain ⟨challenge', there, same⟩ := across .auth_mfa_challenges challenge_id challenge here
  exact ⟨challenge', there, same.token_hash.trans hash, same.user_id.trans owner⟩

theorem Signed.mono {payload : Json} {ended : Completed} (across : steady.Across a b)
    (h : Signed env a payload ended) : Signed env b payload ended := by
  obtain ⟨record, verification, here, owner, accepted⟩ := h
  obtain ⟨record', there, same⟩ := across .user_webauthn_credentials _ record here
  exact ⟨record', verification, there, same.user_id.trans owner, by rw [same.public_key]; exact accepted⟩

theorem starts_mono {call : PasskeyCall} {id : Text} {ceremony : WebAuthnChallenge} {use : Use}
    (across : steady.Across a b) (h : call.Starts env a id ceremony use) :
    call.Starts env b id ceremony use := by
  cases call with
  | mfaOptions =>
      obtain ⟨begins, challenge_id, user_id, for_mfa, found⟩ := h
      exact ⟨begins, challenge_id, user_id, for_mfa, found.mono across⟩
  | _ => exact h

theorem completes_mono {call : PasskeyCall} {ended : Completed} {use : Use} (across : steady.Across a b)
    (h : call.Completes env a ended use) : call.Completes env b ended use := by
  cases call with
  | verifyRegistration =>
      obtain ⟨for_use, owner, early, record, verification, here, mine, key, accepted⟩ := h
      obtain ⟨record', there, same⟩ := across .user_webauthn_credentials _ record here
      exact ⟨for_use, owner, early, record', verification, there, same.user_id.trans mine,
        same.public_key.trans key, accepted⟩
  | verifyLogin => exact ⟨h.1, h.2.1, h.2.2.mono across⟩
  | verifyReauth => exact ⟨h.1, h.2.1, h.2.2.1, h.2.2.2.mono across⟩
  | verifyMfa =>
      obtain ⟨⟨challenge_id, for_mfa, found⟩, early, signed⟩ := h
      exact ⟨⟨challenge_id, for_mfa, found.mono across⟩, early, signed.mono across⟩
  | _ => exact h

end

/-- A ceremony is for one use only. -/
theorem WebAuthnChallenge.isFor_unique {ceremony : WebAuthnChallenge} {use use' : Use}
    (h : ceremony.isFor use) (h' : ceremony.isFor use') : use = use' := by
  cases use <;> cases use' <;> simp only [WebAuthnChallenge.isFor] at h h' <;> simp_all

abbrev PasskeyService := Service Db Lock (Write Row) Sql (Failure AuthError) PasskeyDone

def passkeyService (env : Environment) (call : Pid → PasskeyCall) (db : Db) : PasskeyService :=
  .initial db fun pid => (call pid).job env

/-- The ceremonies that have been completed, latest first -/
def completedIds (log : List (Pid × PasskeyDone)) : List Text :=
  log.filterMap fun entry => match entry.2 with
    | .completed ended => some ended.ceremony_id
    | _ => none

section

variable (env : Environment) (call : Pid → PasskeyCall)

/-- The ceremony was there at the start, for this use, or an options call has started it. -/
def Started (start : Db) (s : PasskeyService) (id : Text) (ceremony : WebAuthnChallenge) (use : Use) :
    Prop :=
  (∃ first, start.row .webauthn_challenges id = some first ∧ first.isFor use ∧ first.Same ceremony) ∨
  ∃ pid options, (pid, .started options) ∈ s.log ∧ (call pid).Starts env s.state.db id ceremony use

/-- The ceremony has been used up, for what it was started for. -/
def UsedUp (db : Db) (pid : Pid) (ended : Completed) : Prop :=
  (∃ ceremony, db.row .webauthn_challenges ended.ceremony_id = some ceremony ∧
    ended.ceremony.Same ceremony ∧ ceremony.used_at.isSome = true) ∧
  ∃ use, ended.ceremony.isFor use ∧ (call pid).Completes env db ended use

structure CeremoniesBound (start : Db) (s : PasskeyService) : Prop where
  serving : Serving Database.apply (fun _ => peers nothingNeeded unrestrained)
    (fun pid => passkeyEnds env (call pid)) s
  started : ∀ id ceremony, s.state.db.row .webauthn_challenges id = some ceremony →
    ∀ use, ceremony.isFor use → Started env call start s id ceremony use
  completed : ∀ pid ended, (pid, .completed ended) ∈ s.log → UsedUp env call s.state.db pid ended
  once : (completedIds s.log).Nodup

variable {env call} {start : Db} {s : PasskeyService}

theorem CeremoniesBound.across (h : CeremoniesBound env call start s) (e : Event) :
    steady.Across s.state.db (s.step Database.apply e).state.db := by
  rcases s.step_cases Database.apply e with ⟨pid, done, pending, -, at_, after, -⟩ | ⟨same, -⟩
  · rw [after]
    exact (h.serving.post_of_done at_).far.across
  · rw [same]
    exact .refl

theorem Started.mono {s' : PasskeyService} {id : Text} {ceremony ceremony' : WebAuthnChallenge}
    {use : Use} (h : Started env call start s id ceremony use) (same : ceremony.Same ceremony')
    (logged : ∀ entry ∈ s.log, entry ∈ s'.log) (across : steady.Across s.state.db s'.state.db) :
    Started env call start s' id ceremony' use := by
  rcases h with ⟨first, here, fits, kept⟩ | ⟨pid, options, mem, starts⟩
  · exact .inl ⟨first, here, fits, kept.trans same⟩
  · exact .inr ⟨pid, options, logged _ mem, starts_same same (starts_mono across starts)⟩

theorem mem_completedIds {log : List (Pid × PasskeyDone)} {id : Text} :
    id ∈ completedIds log ↔ ∃ pid ended, (pid, .completed ended) ∈ log ∧ ended.ceremony_id = id := by
  simp only [completedIds, List.mem_filterMap]
  constructor
  · rintro ⟨⟨pid, done⟩, mem, found⟩
    cases done with
    | completed ended => exact ⟨pid, ended, mem, Option.some.inj found⟩
    | started | refused => cases found
  · rintro ⟨pid, ended, mem, rfl⟩
    exact ⟨_, mem, rfl⟩

theorem CeremoniesBound.step_started (h : CeremoniesBound env call start s) (e : Event) (id : Text)
    (ceremony : WebAuthnChallenge)
    (here : (s.step Database.apply e).state.db.row .webauthn_challenges id = some ceremony) (use : Use)
    (fits : ceremony.isFor use) :
    Started env call start (s.step Database.apply e) id ceremony use := by
  have across := h.across e
  have logged : ∀ entry ∈ s.log, entry ∈ (s.step Database.apply e).log := by
    intro entry mem
    rcases s.step_cases Database.apply e with ⟨pid, done, pending, -, -, -, log⟩ | ⟨-, log⟩ <;> simp [log, mem]
  cases before : s.state.db.row .webauthn_challenges id with
  | some old =>
      obtain ⟨ceremony', there, same⟩ := across .webauthn_challenges id old before
      obtain rfl := Option.some.inj (here.symm.trans there)
      exact (h.started id old before use (same.isFor_iff.mp fits)).mono same logged across
  | none =>
      rcases s.step_cases Database.apply e with ⟨pid, done, pending, -, at_, after, log⟩ | ⟨db, -⟩
      · rw [after, view_row] at here
        obtain ⟨options, use', rfl, fits', starts⟩ :=
          (h.serving.post_of_done at_).begun id ceremony before here
        obtain rfl := ceremony.isFor_unique fits fits'
        exact .inr ⟨pid, options, by simp [log], starts_mono across starts⟩
      · rw [db, before] at here
        cases here

theorem UsedUp.mono {a b : Db} {pid : Pid} {ended : Completed} (h : UsedUp env call a pid ended)
    (across : steady.Across a b) : UsedUp env call b pid ended := by
  obtain ⟨⟨ceremony, here, same, used⟩, use, fits, completes⟩ := h
  obtain ⟨ceremony', there, same'⟩ := across .webauthn_challenges _ ceremony here
  exact ⟨⟨ceremony', there, same.trans same', same'.used used⟩, use, fits, completes_mono across completes⟩

theorem CeremoniesBound.step_completed (h : CeremoniesBound env call start s) (e : Event) (pid : Pid)
    (ended : Completed) (mem : (pid, .completed ended) ∈ (s.step Database.apply e).log) :
    UsedUp env call (s.step Database.apply e).state.db pid ended := by
  have across := h.across e
  rcases s.step_cases Database.apply e with ⟨q, done, pending, -, at_, after, log⟩ | ⟨-, log⟩
  · rw [log] at mem
    rcases List.mem_cons.mp mem with new | earlier
    · obtain ⟨rfl, rfl⟩ : pid = q ∧ done = .completed ended := by simpa [eq_comm] using new
      obtain ⟨here, -, ⟨ceremony, there, used⟩, use, fits, completes⟩ :=
        (h.serving.post_of_done at_).ended ended rfl
      obtain ⟨ceremony', there', same⟩ := across .webauthn_challenges _ ended.ceremony here
      rw [← view_row, ← after, there'] at there
      obtain rfl := Option.some.inj there
      rw [← after] at completes
      exact ⟨⟨ceremony', there', same, used⟩, use, fits, completes⟩
    · exact (h.completed pid ended earlier).mono across
  · rw [log] at mem
    exact (h.completed pid ended mem).mono across

theorem CeremoniesBound.step_once (h : CeremoniesBound env call start s) (e : Event) :
    (completedIds (s.step Database.apply e).log).Nodup := by
  rcases s.step_cases Database.apply e with ⟨pid, done, pending, -, at_, -, log⟩ | ⟨-, log⟩
  · rw [log]
    cases done with
    | started | refused => exact h.once
    | completed ended =>
        refine List.nodup_cons.mpr ⟨fun again => ?_, h.once⟩
        -- a ceremony that was completed before has been used
        obtain ⟨q, ended', mem, same⟩ := mem_completedIds.mp again
        obtain ⟨⟨ceremony, here, -, used⟩, -⟩ := h.completed q ended' mem
        obtain ⟨there, unused, -⟩ := (h.serving.post_of_done at_).ended ended rfl
        rw [same, there] at here
        obtain rfl := Option.some.inj here
        rw [unused] at used
        cases used
  · rw [log]
    exact h.once

theorem CeremoniesBound.step (h : CeremoniesBound env call start s) (e : Event) :
    CeremoniesBound env call start (s.step Database.apply e) :=
  ⟨serving_step h.serving e (fun _ _ _ post => post.covered.lawful) fun _ _ _ _ _ _ _ => trivial,
    h.step_started e, h.step_completed e, h.step_once e⟩

theorem passkeyJob_ends (env : Environment) (call : PasskeyCall) :
    JobEnds Database.apply (peers nothingNeeded unrestrained) (passkeyEnds env call) [] (call.job env) := by
  refine .stage (passkeyCall_ends env call) fun result job follows => ?_
  split at follows
  · obtain rfl := Option.some.inj follows
    refine .only fun fin => ?_
    refine success_quiet.ends (fun _ _ _ => trivial) fun _ written held _ quietly covered => ?_
    exact refused_end covered (Evolution.far_of_keeps quietly)
  · cases follows

theorem CeremoniesBound.initial (db : Db) : CeremoniesBound env call db (passkeyService env call db) where
  serving := .initial db _ fun pid => passkeyJob_ends env (call pid)
  started id ceremony here use fits := .inl ⟨ceremony, here, fits, .refl ceremony⟩
  completed pid ended mem := by cases mem
  once := List.nodup_nil

end

/-- Whatever the calls are, and however they are interleaved: no ceremony is completed
    twice; each completion is of the kind, for the user and for the login challenge that the
    ceremony was started for, with its challenge, before it expires, and by a credential of
    the user; and no counter goes back. -/
theorem ceremonies_bound (env : Environment) (call : Pid → PasskeyCall) (db : Db)
    (events more : List Event) :
    let s := run (Service.step Database.apply) (passkeyService env call db) events
    let s' := run (Service.step Database.apply) (passkeyService env call db) (events ++ more)
    (completedIds s.log).Nodup ∧
    (∀ pid ended, (pid, .completed ended) ∈ s.log → ∃ ceremony use,
      s.state.db.row .webauthn_challenges ended.ceremony_id = some ceremony ∧
        ended.ceremony.Same ceremony ∧ Started env call db s ended.ceremony_id ceremony use ∧
        (call pid).Completes env s.state.db ended use) ∧
    ∀ id record, s.state.db.row .user_webauthn_credentials id = some record →
      ∃ record', s'.state.db.row .user_webauthn_credentials id = some record' ∧
        record.sign_count ≤ record'.sign_count := by
  intro s s'
  have bound : CeremoniesBound env call db s :=
    run_invariant (I := CeremoniesBound env call db) (fun _ e h => h.step e) (.initial db) events
  refine ⟨bound.once, fun pid ended mem => ?_, fun id record here => ?_⟩
  · obtain ⟨⟨ceremony, here, same, -⟩, use, fits, completes⟩ := bound.completed pid ended mem
    have started := bound.started _ ceremony here use (same.isFor_iff.mpr fits)
    exact ⟨ceremony, use, here, same, started, completes⟩
  · have later : steady.Across s.state.db s'.state.db := by
      have stays := run_relation (I := CeremoniesBound env call db)
        (R := fun a b : PasskeyService => steady.Across a.state.db b.state.db)
        (fun _ e h => h.step e) (fun _ => .refl) (fun first second => first.trans second)
        (fun _ e h => h.across e) bound more
      rwa [← run_append] at stays
    obtain ⟨record', there, same⟩ := later .user_webauthn_credentials id record here
    exact ⟨record', there, same.sign_count⟩

/-! A login with a passkey, whose ceremony token somebody sends once more. -/

def passkeyOf (user_id : UserId) : UserWebAuthnCredential where
  user_id := user_id
  credential_id := text "p"
  public_key := text "key"
  sign_count := 2
  name := text "Passkey 1"
  aaguid := none
  transports := none
  device_type := none
  backed_up := none
  last_used_at := none

def onePasskey : Db where
  table := Function.update twoSuperusers.table .user_webauthn_credentials
    ((∅ : Table Text UserWebAuthnCredential).insert (text "c") (passkeyOf (text "a")))

def signedPayload : Json := .obj [(text "rawId", .str (text "p"))]

def replayedCeremony : Pid → PasskeyCall
  | 0 => .loginOptions ⟨text "e", text "token", text "challenge"⟩ fun _ => 0
  | 1 => .verifyLogin (text "token") signedPayload (fun _ => 10) ⟨text "l0", text "l1"⟩
  | _ => .verifyLogin (text "token") signedPayload (fun _ => 11) ⟨text "l2", text "l3"⟩

def replayed : List Event :=
  List.replicate 4 (Event.step 0) ++ List.replicate 10 (Event.step 1) ++ List.replicate 3 (Event.step 2) ++
    List.replicate 12 (Event.step 1) ++ List.replicate 3 (Event.step 2)

def afterReplay : PasskeyService :=
  run (Service.step Database.apply) (passkeyService plainEnvironment replayedCeremony onePasskey)
    replayed

set_option maxRecDepth 10000 in
theorem ceremonies_bound_here :
    completedIds afterReplay.log = [text "e"] ∧
      afterReplay.state.proc 2 = .raised (.error (passkey_challenge_invalid
        "Diese Passkey-Anfrage wurde bereits verwendet." 409)) ∧
      (completedIds afterReplay.log).Nodup :=
  ⟨rfl, rfl, (ceremonies_bound plainEnvironment replayedCeremony onePasskey replayed []).1⟩

end PackageRegistry.Accounts
