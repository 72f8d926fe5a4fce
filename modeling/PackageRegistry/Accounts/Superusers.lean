import PackageRegistry.Accounts.Account
import PackageRegistry.Accounts.Rules

/-! # The last active superuser

A superuser who leaves has the rows of all active superusers locked and has counted at
least two of them. So one of them is another one, and stays an active superuser until
the call has committed.
-/

namespace PackageRegistry.Accounts

open Transactions Relational Runs
open PackageRegistry.Auth (UserId Time AuthError)

inductive LeavingCall where
  | deactivate (user_id : UserId) (now : Time) (audit_id : Text)
  | delete (user_id : UserId) (confirmation_text : Text) (current_password : Option Text)
      (authenticated_at : Option Time) (now : Time) (audit_id : Text)

def LeavingCall.program (env : Environment) : LeavingCall → Program Left
  | .deactivate user_id now audit_id => deactivate_own_account user_id now audit_id
  | .delete user_id confirmation_text current_password authenticated_at now audit_id =>
      delete_own_account env user_id confirmation_text current_password authenticated_at now audit_id

def HasActiveSuperuser (db : Db) : Prop :=
  ∃ id user, db.row .users id = some user ∧ user.isActiveSuperuser = true

/-! ## What a call has done when it commits -/

/-- A write that touches no other user -/
def Spares (user_id : UserId) (w : Write Row) : Prop := w.table = .users → w.key = user_id

/-- No row needs a lock beyond its own. -/
def nothingNeeded : Needed := fun _ _ _ _ => False

def keepsSuperuser : Ending Left
  | .ok _, fin, pending, held => AllCovered nothingNeeded held pending ∧
      (HasActiveSuperuser fin → HasActiveSuperuser (view Database.apply fin pending))
  | .error _, _, _, _ => True

section

variable {fin : Db} {user_id : UserId} {pending : List (Write Row)} {held : Held Lock}
  {extra : Restraint Db}

/-- A user who may leave: not an active superuser, or not the only one -/
def MayLeave (fin : Db) (user_id : UserId) : Prop :=
  (∀ user, fin.row .users user_id = some user → user.isActiveSuperuser = false) ∨
    ∃ id user, id ≠ user_id ∧ fin.row .users id = some user ∧ user.isActiveSuperuser = true

/-- Somebody else is an active superuser, and has not been touched. -/
theorem MayLeave.keeps (may : MayLeave fin user_id) (spared : ∀ w ∈ pending, Spares user_id w)
    (h : HasActiveSuperuser fin) : HasActiveSuperuser (view Database.apply fin pending) := by
  obtain ⟨id, user, other, here, rules⟩ : ∃ id user, id ≠ user_id ∧ fin.row .users id = some user ∧
      user.isActiveSuperuser = true := by
    rcases may with harmless | other
    · obtain ⟨id, user, here, rules⟩ := h
      refine ⟨id, user, ?_, here, rules⟩
      rintro rfl
      rw [harmless user here] at rules
      cases rules
    · exact other
  refine ⟨id, user, ?_, rules⟩
  rw [view_row, rowAfter_untouched fun w mem same key => other (key.symm.trans (spared w mem same))]
  exact here

theorem other_of_two {ids : List Text} (distinct : ids.Nodup) (two : 1 < ids.length) (id : Text) :
    ∃ other ∈ ids, other ≠ id := by
  match ids with
  | a :: b :: rest =>
      have apart : a ≠ b := by
        rintro rfl
        simp at distinct
      by_cases first : a = id
      · exact ⟨b, by simp, fun same => apart (first.trans same.symm)⟩
      · exact ⟨a, by simp, first⟩

/-- What follows once the rows are locked may touch the user's own row. -/
theorem leave_ends {f : User → Program Left}
    (rest : ∀ user, Adds nothingNeeded extra (Spares user_id) (f user)) :
    Closing nothingNeeded extra keepsSuperuser
      ((_lock_user_and_protect_last_superuser user_id).bind f) fin [] held := by
  have leaves : ∀ user held', MayLeave fin user_id →
      Closing nothingNeeded extra keepsSuperuser (f user) fin [] held' := by
    intro user held' may
    refine (rest user fin [] held').mono fun result pending held'' after => ?_
    cases result with
    | error => trivial
    | ok o =>
        obtain ⟨-, written, rfl, spared, covered⟩ := after
        exact ⟨covered, may.keeps spared⟩
  unfold _lock_user_and_protect_last_superuser
  rw [Tx.bind_eq, Tx.bind_assoc]
  refine getForUpdate_ends (fun _ _ _ => trivial) trivial fun user here => ?_
  rw [rowAfter_nil] at here
  dsimp only
  split
  · rw [Tx.bind_eq, Tx.bind_assoc]
    refine lockWhere_ends fun active_ids held' kept distinct active => ?_
    split
    · trivial
    · -- two different active superusers are not both the one who leaves
      obtain ⟨id, mem, other⟩ := other_of_two distinct (by omega) user_id
      obtain ⟨-, row, there, rules⟩ := active id mem
      exact leaves user held' (.inr ⟨id, row, other, there, rules⟩)
  · rename_i ordinary
    refine leaves user _ (.inl fun user' here' => ?_)
    obtain rfl := Option.some.inj (here.symm.trans here')
    simp [User.isActiveSuperuser, ordinary]

theorem revokeSessions_spares (now : Time) (reason : Auth.RevocationReason) :
    Adds nothingNeeded extra (Spares user_id) (revokeSessions user_id now reason) :=
  adds_updateAll (fun _ _ _ => id) (by simp [Spares])

theorem deactivate_own_account_ends (now : Time) (audit_id : Text) :
    Closing nothingNeeded extra keepsSuperuser (deactivate_own_account user_id now audit_id)
      fin [] [] := by
  refine leave_ends fun user => ?_
  split
  · refine .bind ?_ fun _ => .bind (revokeSessions_spares now _) fun _ => .bind ?_ fun _ => adds_pure _
    · exact adds_update (fun _ _ _ => id) fun _ => rfl
    · exact adds_insertAudit (fun _ _ => id) (by simp [Spares])
  · exact adds_pure _

theorem removeTraces_spares : Adds nothingNeeded extra (Spares user_id) (removeTraces user_id) := by
  refine .bind ?_ fun _ => .bind ?_ fun _ => .bind ?_ fun _ => .bind ?_ fun _ => .bind ?_ fun _ => ?_
  case refine_1 | refine_2 => exact adds_updateAll (fun _ _ _ => id) (by simp [Spares])
  all_goals exact adds_deleteAll (by simp [Spares])

theorem cascade_spares : Adds nothingNeeded extra (Spares user_id) (cascade user_id) := by
  refine .bind ?_ fun _ => .bind ?_ fun _ => .bind ?_ fun _ => .bind ?_ fun _ => .bind ?_ fun _ =>
    .bind ?_ fun _ => .bind ?_ fun _ => .bind ?_ fun _ => ?_
  all_goals exact adds_deleteAll (by simp [Spares])

theorem delete_own_account_ends (env : Environment) (confirmation_text : Text)
    (current_password : Option Text) (authenticated_at : Option Time) (now : Time) (audit_id : Text) :
    Closing nothingNeeded extra keepsSuperuser (delete_own_account env user_id confirmation_text
      current_password authenticated_at now audit_id) fin [] [] := by
  unfold delete_own_account
  split
  · trivial
  · refine leave_ends fun user => ?_
    split
    · exact adds_raise _
    · refine .bind removeTraces_spares fun _ => .bind ?_ fun _ => .bind ?_ fun _ =>
        .bind cascade_spares fun _ => adds_pure _
      · exact adds_insertAudit (fun _ _ => id) (by simp [Spares])
      · exact adds_deleteRow fun _ => rfl

theorem leavingCall_ends (env : Environment) (call : LeavingCall) :
    Closing nothingNeeded extra keepsSuperuser (call.program env) fin [] [] := by
  cases call with
  | deactivate user_id now audit_id => exact deactivate_own_account_ends now audit_id
  | delete user_id confirmation_text current_password authenticated_at now audit_id =>
      exact delete_own_account_ends env confirmation_text current_password authenticated_at now audit_id

end

/-! ## Runs -/

def leavingCalls (env : Environment) (call : Pid → LeavingCall) (db : Db) : World Left :=
  .initial db fun pid => (call pid).program env

abbrev Leaving (s : World Left) : Prop :=
  Heading Database.apply (fun _ => peers nothingNeeded unrestrained) (fun _ => keepsSuperuser) s

theorem Leaving.step {s : World Left} (h : Leaving s) (e : Event) :
    Leaving (s.step Database.apply e) :=
  heading_step h e (fun _ _ _ post => post.1) fun _ _ _ _ _ _ _ => trivial

theorem Leaving.keeps {s : World Left} (h : Leaving s) (e : Event) (has : HasActiveSuperuser s.db) :
    HasActiveSuperuser (s.step Database.apply e).db := by
  rcases s.step_cases Database.apply e with ⟨pid, o, pending, -, at_, stepped⟩ | ⟨same, -⟩
  · rw [stepped]
    exact (h.post_of_done at_).2 has
  · rwa [same]

theorem leavingCalls_heading (env : Environment) (call : Pid → LeavingCall) (db : Db) :
    Leaving (leavingCalls env call db) :=
  .initial db _ fun pid _ _ => leavingCall_ends env (call pid)

/-- Once there is an active superuser, there always is one. -/
theorem last_superuser_stays (env : Environment) (call : Pid → LeavingCall) (db : Db)
    (events more : List Event)
    (has : HasActiveSuperuser (run (State.step Database.apply) (leavingCalls env call db) events).db) :
    HasActiveSuperuser
      (run (State.step Database.apply) (leavingCalls env call db) (events ++ more)).db := by
  have start : Leaving (run (State.step Database.apply) (leavingCalls env call db) events) :=
    run_invariant (fun _ e h => h.step e) (leavingCalls_heading env call db) events
  rw [run_append]
  exact (run_invariant (I := fun s : World Left => Leaving s ∧ HasActiveSuperuser s.db)
    (fun _ e h => ⟨h.1.step e, h.1.keeps e h.2⟩) ⟨start, has⟩ more).2

/-! Two superusers leave at the same time, each waits for the other, and one of them is
    stopped. When the call is made again, it is the last superuser who makes it. -/

def superuser : User where
  email := text "root@x"
  password_hash := some (text "secret")
  is_active := true
  deactivation_reason := none
  updated_at := 0
  email_pending := false
  avatar_url := none
  deactivated_at := none
  is_verified := true
  is_superuser := true
  last_login_at := none

def noRows : Db := ⟨fun _ => ∅⟩

def twoSuperusers : Db where
  table := Function.update noRows.table .users
    (((∅ : Table Text User).insert (text "a") superuser).insert (text "b") superuser)

def plainEnvironment : Environment where
  hash_token := id
  verify_password given hash := given == hash
  casefold := id
  recent_auth_seconds := 300
  isdigit code := code.all CodePoint.isDigit
  encrypt_mfa_secret _ secret := some secret
  decrypt_mfa_secret := some
  recovery_code_hash := id
  totp_at secret _ := secret
  mfa_totp_valid_window := 1
  mfa_max_attempts := 5
  mfa_challenge_expire_seconds := 300
  mfa_setup_expire_seconds := 600
  base64url_to_bytes := some
  uuid_bytes := id
  is_transport transport := transport == text "usb"
  verify_registration_response _ challenge :=
    .ok ⟨challenge, text "key", 0, none, "single_device", false⟩
  verify_authentication_response _ challenge key :=
    .ok ⟨challenge.length + key.length, "single_device", false⟩
  webauthn_challenge_expire_seconds := 300
  str_lower := id
  lower := id
  capitalize := id
  sha256_hexdigest := id

def bothLeave : Pid → LeavingCall
  | 0 => .deactivate (text "a") 10 (text "l0")
  | _ => .delete (text "b") (text "löschen") (some (text "secret")) none 11 (text "l1")

def deadlockBroken : List Event :=
  List.replicate 4 (Event.step 0) ++ List.replicate 5 (Event.step 1) ++ List.replicate 2 (Event.step 0) ++
    [Event.abort 1] ++ List.replicate 14 (Event.step 0) ++ List.replicate 9 (Event.step 2)

def afterLeaving : World Left :=
  run (State.step Database.apply) (leavingCalls plainEnvironment bothLeave twoSuperusers)
    deadlockBroken

set_option maxRecDepth 10000 in
theorem last_superuser_stays_here :
    afterLeaving.proc 0 = .committed .deactivated ∧
      afterLeaving.proc 2 = .raised (.error last_superuser_required) ∧
      HasActiveSuperuser afterLeaving.db := by
  have both : HasActiveSuperuser twoSuperusers := ⟨text "a", superuser, by decide, rfl⟩
  have stays : HasActiveSuperuser (run (State.step Database.apply)
      (leavingCalls plainEnvironment bothLeave twoSuperusers) ([] ++ deadlockBroken)).db :=
    last_superuser_stays plainEnvironment bothLeave twoSuperusers [] deadlockBroken both
  exact ⟨Proc.committed_of_answer (by decide +kernel), Proc.raised_of_answer (by decide +kernel),
    stays⟩

end PackageRegistry.Accounts
