import PackageRegistry.Accounts.Passkeys
import PackageRegistry.Accounts.MfaRules

/-! # Rules for the steps of the passkey service

What the helpers of `passkey_service` have found and written when the call goes on, for
whatever rows may need besides the ones of passkeys.
-/

namespace PackageRegistry.Accounts

open Transactions Relational
open PackageRegistry.Auth (UserId Time AuthError)

/-- The rows that a passkey operation writes need nothing. -/
structure PasskeysFree (needs : Needed) : Prop where
  ceremonies : ∀ row r m, ¬needs .webauthn_challenges row r m
  credentials : ∀ row r m, ¬needs .user_webauthn_credentials row r m
  users : ∀ row r m, ¬needs .users row r m
  audit : ∀ row r m, ¬needs .auth_audit_logs row r m

section

variable {α : Type} {needs : Needed} {extra : Restraint Db} {post : Ending α} {fin : Db}
  {pending : List (Write Row)} {held : Held Lock} {env : Environment}

/-- An expired ceremony is invalidated; any other one that is found can be used now. -/
theorem locked_ceremony_ends {token : Text} {purpose : Purpose} {clock : Clock}
    {f : Except AuthError (Text × WebAuthnChallenge) → Program α}
    (refused : ∀ failure pending held, post (.error failure) fin pending held)
    (expired : ∀ id error, Closing needs extra post (f (.error error)) fin
      (pending ++ [⟨.webauthn_challenges, id, .update (·.invalidate (clock 1))⟩])
      ((.row .webauthn_challenges id, .noKeyUpdate) :: (.row .webauthn_challenges id, .update) :: held))
    (usable : ∀ id ceremony,
      rowAfter pending .webauthn_challenges id (fin.row .webauthn_challenges id) = some ceremony →
      ceremony.purpose = purpose → ceremony.used_at = none → clock 0 < ceremony.expires_at →
      Closing needs extra post (f (.ok (id, ceremony))) fin pending
        ((.row .webauthn_challenges id, .update) :: held)) :
    Closing needs extra post ((_locked_ceremony env token purpose clock).bind f) fin pending held := by
  unfold _locked_ceremony
  simp only [Tx.bind_eq, Tx.bind_assoc]
  refine findForUpdate_either (fun _ _ => refused _ _ _) fun id ceremony here _ => ?_
  dsimp only
  split
  · exact refused _ _ _
  · rename_i fits
    obtain ⟨purpose_fits, -⟩ : ceremony.purpose = purpose ∧ ceremony.invalidated_at = none := by
      simpa using fits
    split
    · exact refused _ _ _
    · rename_i unused
      split
      · rw [Tx.bind_assoc]
        refine update_ends (fun _ _ _ => refused _ _ _) fun _ _ => ?_
        exact expired id _
      · rename_i early
        exact usable id ceremony here purpose_fits (by simpa using unused) (Nat.not_le.mp early)

/-- A failed attempt on a ceremony -/
def AttemptWrite (ceremony_id : Text) (w : Write Row) : Prop :=
  (∃ attempts, w = ⟨.webauthn_challenges, ceremony_id, .update ({ · with attempt_count := attempts })⟩) ∨
    ∃ id entry, w = ⟨.auth_audit_logs, id, .insert entry⟩

theorem failCeremony_ends {β : Type} {id audit_id : Text} {ceremony : WebAuthnChallenge}
    {entry : AuthAuditLog} {error : AuthError} {f : Except AuthError β → Program α}
    (free : PasskeysFree needs)
    (refused : ∀ failure pending held, post (.error failure) fin pending held)
    (failed : ∀ written held', (∀ l ∈ held, l ∈ held') → (∀ w ∈ written, AttemptWrite id w) →
      AllCovered needs held' written →
      Closing needs extra post (f (.error error)) fin (pending ++ written) held') :
    Closing needs extra post ((failCeremony id ceremony entry audit_id error).bind f) fin pending
      held := by
  have counted : Adds needs extra (AttemptWrite id) (update .webauthn_challenges id
      ({ · with attempt_count := ceremony.attempt_count + 1 })) :=
    adds_update (fun _ r m needed => absurd needed (free.ceremonies _ r m)) (.inl ⟨_, rfl⟩)
  have reported : Adds needs extra (AttemptWrite id) (insertAudit audit_id entry) :=
    adds_insertAudit (fun r m => free.audit _ r m) (.inr ⟨_, _, rfl⟩)
  unfold failCeremony
  simp only [Tx.bind_eq, Tx.bind_assoc]
  refine counted.ends refused fun _ first held₁ kept₁ kinds₁ covered₁ => ?_
  refine reported.ends refused fun _ second held₂ kept₂ kinds₂ covered₂ => ?_
  rw [List.append_assoc]
  refine failed (first ++ second) held₂ (fun l mem => kept₂ l (kept₁ l mem)) (fun w mem => ?_)
    ((covered₁.among kept₂).append covered₂)
  exact (List.mem_append.mp mem).elim (kinds₁ w) (kinds₂ w)

/-- The writes of an accepted signature -/
def signedWrites (ceremony_id credential_row : Text) (user_id : UserId) (verification : Verification)
    (clock : Clock) : List (Write Row) :=
  [⟨.user_webauthn_credentials, credential_row, .update (·.verified verification (clock 2))⟩,
    ⟨.webauthn_challenges, ceremony_id, .update ({ · with used_at := some (clock 3) })⟩,
    ⟨.users, user_id, .update ({ · with last_login_at := some (clock 4) })⟩]

theorem signedWrites_covered {ceremony_id credential_row : Text} {user_id : UserId}
    {verification : Verification} {clock : Clock} (free : PasskeysFree needs)
    (credential : (.row .user_webauthn_credentials credential_row, .noKeyUpdate) ∈ held)
    (ceremony : (.row .webauthn_challenges ceremony_id, .noKeyUpdate) ∈ held)
    (user : (.row .users user_id, .noKeyUpdate) ∈ held) :
    AllCovered needs held (signedWrites ceremony_id credential_row user_id verification clock) := by
  intro w mem
  simp only [signedWrites, List.mem_cons, List.not_mem_nil, or_false] at mem
  rcases mem with rfl | rfl | rfl
  · exact covered_update (locks_of_mem credential) fun _ r m needed =>
      absurd needed (free.credentials _ r m)
  · exact covered_update (locks_of_mem ceremony) fun _ r m needed =>
      absurd needed (free.ceremonies _ r m)
  · exact covered_update (locks_of_mem user) fun _ r m needed => absurd needed (free.users _ r m)

theorem sessionGet_ends {loaded : Option (UserId × User)} {user_id : UserId}
    {f : Option User → Program α}
    (rest : ∀ user, Closing needs extra post (f user) fin pending held) :
    Closing needs extra post ((sessionGet loaded user_id).bind f) fin pending held := by
  unfold sessionGet
  split
  · exact rest _
  · exact get_ends fun _ _ => rest _

theorem responseField_ends {payload : Json} {key : Text} {f : Option Json → Program α}
    (refused : ∀ failure, post (.error failure) fin pending held)
    (rest : ∀ field, Closing needs extra post (f field) fin pending held) :
    Closing needs extra post ((responseField payload key).bind f) fin pending held := by
  unfold responseField
  split
  · exact rest _
  · exact rest _
  · exact refused _

theorem credential_id_ends {payload : Json} {f : Text → Program α}
    (refused : ∀ failure, post (.error failure) fin pending held)
    (rest : ∀ credential_id, Closing needs extra post (f credential_id) fin pending held) :
    Closing needs extra post ((_credential_id env payload).bind f) fin pending held := by
  unfold _credential_id
  split
  · split
    · exact rest _
    · exact refused _
  · exact refused _

theorem auditRegression_adds {user_id : UserId} {record : UserWebAuthnCredential}
    {verification : Verification} {audit_id : Text} (free : PasskeysFree needs) :
    Adds needs extra (fun w => ∃ id entry, w = ⟨.auth_audit_logs, id, .insert entry⟩)
      (auditRegression user_id record verification audit_id) := by
  unfold auditRegression
  split
  · exact adds_insertAudit (fun r m => free.audit _ r m) ⟨_, _, rfl⟩
  · exact adds_pure _

theorem verify_authentication_ends {ceremony_id audit_id : Text} {ceremony : WebAuthnChallenge}
    {payload : Json} {expected_user_id : Option UserId} {loaded : Option (UserId × User)}
    {clock : Clock} {f : Except AuthError Completed → Program α} (free : PasskeysFree needs)
    (refused : ∀ failure pending held, post (.error failure) fin pending held)
    (failed : ∀ error written held', (∀ l ∈ held, l ∈ held') →
      (∀ w ∈ written, AttemptWrite ceremony_id w) → AllCovered needs held' written →
      Closing needs extra post (f (.error error)) fin (pending ++ written) held')
    (accepted : ∀ credential_row record verification reports held', (∀ l ∈ held, l ∈ held') →
      rowAfter pending .user_webauthn_credentials credential_row
        (fin.row .user_webauthn_credentials credential_row) = some record →
      (∀ user_id, expected_user_id = some user_id → user_id = record.user_id) →
      env.verify_authentication_response payload ceremony.challenge record.public_key =
        .ok verification →
      (∀ w ∈ reports, ∃ id entry, w = ⟨.auth_audit_logs, id, .insert entry⟩) →
      AllCovered needs held'
        (reports ++ signedWrites ceremony_id credential_row record.user_id verification clock) →
      Closing needs extra post (f (.ok ⟨ceremony_id, ceremony, credential_row, record.user_id⟩)) fin
        (pending ++ (reports ++
          signedWrites ceremony_id credential_row record.user_id verification clock)) held') :
    Closing needs extra post ((_verify_authentication env ceremony_id ceremony payload
      expected_user_id loaded clock audit_id).bind f) fin pending held := by
  unfold _verify_authentication
  simp only [Tx.bind_eq, Tx.bind_assoc]
  refine credential_id_ends (fun _ => refused _ _ _) fun credential_id => ?_
  refine findForUpdate_either (fun held' kept => ?_) fun credential_row record here _ => ?_
  · refine failCeremony_ends free refused fun written held'' more kinds covered => ?_
    exact failed _ written held'' (fun l mem => more l (kept l mem)) kinds covered
  · have locked : ∀ l ∈ held, l ∈ (.row .user_webauthn_credentials credential_row, .update) :: held :=
      fun l mem => List.mem_cons_of_mem _ mem
    split
    · refine failCeremony_ends free refused fun written held'' more kinds covered => ?_
      exact failed _ written held'' (fun l mem => more l (locked l mem)) kinds covered
    · rename_i credential_row' record' fits
      obtain ⟨same, owner⟩ := Option.filter_eq_some_iff.mp fits
      obtain ⟨rfl, rfl⟩ : credential_row = credential_row' ∧ record = record' := by simpa using same
      have expected : ∀ user_id, expected_user_id = some user_id → user_id = record.user_id := by
        rintro user_id rfl
        simpa using owner
      simp only [Tx.bind_assoc]
      refine sessionGet_ends fun user => ?_
      split
      · exact refused _ _ _
      · split
        · exact refused _ _ _
        · simp only [Tx.bind_assoc]
          refine responseField_ends (fun _ => refused _ _ _) fun user_handle => ?_
          split
          · exact refused _ _ _
          · split
            · refine failCeremony_ends free refused fun written held'' more kinds covered => ?_
              exact failed _ written held'' (fun l mem => more l (locked l mem)) kinds covered
            · rename_i verification signed
              simp only [Tx.bind_assoc]
              refine (auditRegression_adds free).ends refused fun _ reports held₁ kept₁ kinds covered => ?_
              refine update_ends refused fun _ _ => update_ends refused fun _ _ =>
                update_ends refused fun _ _ => ?_
              have more : ∀ l ∈ held₁, l ∈ (.row .users record.user_id, .noKeyUpdate) ::
                  (.row .webauthn_challenges ceremony_id, .noKeyUpdate) ::
                  (.row .user_webauthn_credentials credential_row, .noKeyUpdate) :: held₁ :=
                fun l mem => by simp [mem]
              have rest := accepted credential_row record verification reports _
                (fun l mem => more l (kept₁ l (locked l mem))) here expected signed kinds
                ((covered.among more).append (signedWrites_covered free (by simp) (by simp) (by simp)))
              simp only [signedWrites, List.append_assoc, List.cons_append, List.nil_append] at rest ⊢
              exact rest

/-- A login challenge that is found, is open, and has not expired. -/
theorem lockedChallenge_ends {token : Text} {now : Time} {f : Text × AuthMfaChallenge → Program α}
    (refused : ∀ failure pending held, post (.error failure) fin pending held)
    (usable : ∀ id challenge,
      rowAfter pending .auth_mfa_challenges id (fin.row .auth_mfa_challenges id) = some challenge →
      challenge.token_hash = env.hash_token token → challenge.isOpen = true →
      now < challenge.expires_at →
      Closing needs extra post (f (id, challenge)) fin pending
        ((.row .auth_mfa_challenges id, .update) :: held)) :
    Closing needs extra post ((lockedChallenge env token now).bind f) fin pending held := by
  unfold lockedChallenge
  simp only [Tx.bind_eq, Tx.bind_assoc]
  refine findForUpdate_either (fun _ _ => refused _ _ _) fun id challenge here matches_ => ?_
  dsimp only
  split
  · exact refused _ _ _
  · rename_i fits
    obtain ⟨alive, early⟩ : challenge.isOpen = true ∧ ¬challenge.expires_at ≤ now := by
      simpa using fits
    exact usable id challenge here (by simpa using matches_) alive (Nat.not_le.mp early)

/-- A ceremony is started: its row is new. -/
theorem create_ceremony_ends {purpose : Purpose} {new : NewCeremony} {user_id : Option UserId}
    {mfa_challenge_id : Option Text} {now : Time} {f : Unit → Program α} (free : PasskeysFree needs)
    (refused : ∀ failure pending held, post (.error failure) fin pending held)
    (rest : ∀ ceremony held', (∀ l ∈ held, l ∈ held') →
      rowAfter pending .webauthn_challenges new.id (fin.row .webauthn_challenges new.id) = none →
      ceremony.purpose = purpose → ceremony.user_id = user_id →
      ceremony.mfa_challenge_id = mfa_challenge_id → ceremony.challenge = new.challenge →
      ceremony.expires_at = now + env.webauthn_challenge_expire_seconds →
      Covered needs held' ⟨.webauthn_challenges, new.id, .insert ceremony⟩ →
      Closing needs extra post (f ()) fin
        (pending ++ [⟨.webauthn_challenges, new.id, .insert ceremony⟩]) held') :
    Closing needs extra post
      ((_create_ceremony env purpose new user_id mfa_challenge_id now).bind f) fin pending held := by
  unfold _create_ceremony
  simp only [Tx.bind_eq, Tx.bind_assoc]
  refine enter_ends (refused _ _ _) fun _ _ _ => insertRow_ends (refused _ _ _) fun absent => ?_
  refine referTo_ends refused fun held₁ more _ => ?_
  split
  · refine rest _ held₁ (fun l mem => more l (by simp [mem])) absent rfl rfl rfl rfl rfl ?_
    exact covered_insert (more _ (by simp)) fun r m needed => absurd needed (free.ceremonies _ r m)
  · refine refer_ends (refused _ _ _) fun _ _ => ?_
    refine rest _ _ (fun l mem => List.mem_cons_of_mem _ (more l (by simp [mem]))) absent rfl rfl rfl
      rfl rfl ?_
    exact covered_insert (List.mem_cons_of_mem _ (more _ (by simp)))
      fun r m needed => absurd needed (free.ceremonies _ r m)

end

end PackageRegistry.Accounts
