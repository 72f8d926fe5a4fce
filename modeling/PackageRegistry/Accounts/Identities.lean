import PackageRegistry.Accounts.IdentityRules
import PackageRegistry.Accounts.Superusers
import PackageRegistry.Lib.Ownership

/-! # Whose identities they are

Logins, links, unlinks, deactivations and deletions, each with the transactions that it runs.
The owners of the identities form a register, in which every commit makes one move.
-/

namespace PackageRegistry.Accounts

open Transactions Relational Ownership
open PackageRegistry.Auth (UserId Time AuthError)

inductive OAuthCall where
  | authenticate (identity : OAuthIdentity) (clock : Clock) (new : NewIds)
  | link (user_id : UserId) (identity : OAuthIdentity) (now : Time) (new : NewIds)
  | unlink (user_id : UserId) (provider audit_id : Text)
  | leave (leaving : LeavingCall)

abbrev OAuthJob := Job Db Lock (Write Row) Sql (Failure AuthError) OAuthDone

section

variable (env : Environment)

/-- What the service does after a login -/
def afterLogin : Except (Failure AuthError) OAuthDone → Option OAuthJob
  | .ok (.authenticated user_id _) => some (.only (refreshUser user_id))
  | _ => none

def OAuthCall.job : OAuthCall → OAuthJob
  | .authenticate identity clock new =>
      .stage (authenticate_oauth_identity env identity clock new) fun
        | .error .integrity => some (.stage (retriedLogin env identity (clock 3) new.audit_id) afterLogin)
        | result => afterLogin result
  | .link user_id identity now new =>
      .stage (withUser user_id fun user => link_oauth_account env user_id user identity now new) fun
        | .ok (.linked account_id) => some (.only (refreshAccount account_id))
        | _ => none
  | .unlink user_id provider audit_id =>
      .only (signedIn user_id fun user => unlink_oauth_account env user_id user provider audit_id)
  | .leave leaving =>
      .only do
        let left ← leaving.program env
        pure (.left left)

/-! ## Effects of the calls -/

/-- The account that the call may add -/
def OAuthCall.account : OAuthCall → Option (Text × Title)
  | .authenticate identity _ new => some (new.account_id, new.user_id, identity.key env)
  | .link user_id identity _ new => some (new.account_id, user_id, identity.key env)
  | _ => none

/-- What a transaction of the call has done if this is its result -/
def OAuthCall.effect (call : OAuthCall) (done : OAuthDone) : Effect :=
  match call, done with
  | .authenticate .., .authenticated user_id new_user =>
      { Effect.none with
          opens key title := new_user = true ∧ call.account env = some (key, title)
          touches u := u = user_id
          creates u := new_user = true ∧ u = user_id }
  | .link user_id .., .linked _ =>
      { Effect.none with
          opens key title := call.account env = some (key, title)
          touches u := u = user_id }
  | .unlink user_id provider _, .unlinked =>
      { Effect.none with
          closes title :=
            title.1 = user_id ∧ title.2.1 = normalize_provider env (normalize_provider env provider) }
  | .leave (.deactivate user_id ..), .left _ => { Effect.none with touches u := u = user_id }
  | .leave (.delete user_id ..), .left _ =>
      { Effect.none with
          closes title := title.1 = user_id
          touches u := u = user_id }
  | _, _ => .none

/-- Who owns the identity before and after a transaction with this result -/
def OAuthCall.Shows (before after : Db) : OAuthCall → OAuthDone → Prop
  | .authenticate identity _ _, .authenticated user_id true =>
      (∀ u, ¬Owner before (identity.key env) u) ∧ Owner after (identity.key env) user_id
  | .authenticate identity _ _, .authenticated user_id false => Owner before (identity.key env) user_id
  | .link user_id identity _ _, .linked _ =>
      (Owner before (identity.key env) user_id ∨ ∀ u, ¬Owner before (identity.key env) u) ∧
        Owner after (identity.key env) user_id
  | _, _ => True

/-- What a transaction has done when it commits. `prior` are the results of the call before it. -/
structure OAuthEnd (call : OAuthCall) (prior : List OAuthDone) (done : OAuthDone) (fin : Db)
    (pending : List (Write Row)) (held : Held Lock) : Prop where
  covered : AllCovered identityNeeds held pending
  far : (titles (call.effect env done)).Far fin pending
  shows : call.Shows env fin (view Database.apply fin pending) done
  returned : ∀ u user, done = .returned u user → ∃ new_user, .authenticated u new_user ∈ prior

variable (stands : Text → Title → Prop)

def oauthEnds (call : OAuthCall) (prior : List OAuthDone) : Ending OAuthDone
  | .ok done, fin, pending, held => Conforms stands fin → OAuthEnd env call prior done fin pending held
  | .error _, _, _, _ => True

abbrev Owns (call : OAuthCall) (prior : List OAuthDone) (t : Program OAuthDone) (fin : Db)
    (pending : List (Write Row)) (held : Held Lock) : Prop :=
  Closing identityNeeds (conforming stands) (oauthEnds env stands call prior) t fin pending held

end

section

variable {env : Environment} {stands : Text → Title → Prop} {call : OAuthCall} {prior : List OAuthDone}
  {fin : Db} {pending : List (Write Row)} {held : Held Lock}

/-! ## Writes -/

theorem covered_user {u : UserId} {g : User → User} (mine : (.row .users u, .noKeyUpdate) ∈ held) :
    Covered identityNeeds held ⟨.users, u, .update g⟩ :=
  covered_update (locks_of_mem mine) fun _ _ _ => id

theorem covered_touched {key : Text} {account : UserOAuthAccount} {identity : OAuthIdentity} {now : Time}
    (mine : (.row .user_oauth_accounts key, .noKeyUpdate) ∈ held) :
    Covered identityNeeds held ⟨.user_oauth_accounts, key, .update (account.touched identity now)⟩ :=
  covered_update (locks_of_mem mine) fun _ _ _ needed => needed

theorem allCovered_pair {w w' : Write Row} (h : Covered identityNeeds held w)
    (h' : Covered identityNeeds held w') : AllCovered identityNeeds held [w, w'] := by
  intro v mem
  rcases List.mem_pair.mp mem with rfl | rfl
  · exact h
  · exact h'

/-- An entry in the audit log, after writes that have their locks -/
theorem audited {id : Text} {entry : AuthAuditLog} {f : Unit → Program OAuthDone}
    (covered : AllCovered identityNeeds held pending)
    (rest : ∀ held', AllCovered identityNeeds held' (pending ++ [⟨.auth_audit_logs, id, .insert entry⟩]) →
      Owns env stands call prior (f ()) fin (pending ++ [⟨.auth_audit_logs, id, .insert entry⟩]) held') :
    Owns env stands call prior ((insertAudit id entry).bind f) fin pending held :=
  insertAudit_ends (fun _ _ _ => trivial) (fun _ _ needed => needed) fun held' kept _ mine =>
    rest held' ((covered.among kept).concat mine)

theorem far_reported {effect : Effect} {id : Text} {entry : AuthAuditLog}
    (far : (titles effect).Far fin pending) :
    (titles effect).Far fin (pending ++ [⟨.auth_audit_logs, id, .insert entry⟩]) :=
  far.append fun _ mem => List.mem_singleton.mp mem ▸ titles_audit

theorem far_touched {effect : Effect} {u : UserId} {g : User → User} {key : Text}
    {account : UserOAuthAccount} {identity : OAuthIdentity} {now : Time} (touches : effect.touches u) :
    (titles effect).Far fin [⟨.users, u, .update g⟩,
      ⟨.user_oauth_accounts, key, .update (account.touched identity now)⟩] := by
  refine Evolution.far_of_keeps fun w mem => ?_
  rcases List.mem_pair.mp mem with rfl | rfl
  · exact titles_user touches
  · exact titles_account fun _ => rfl

/-- Nothing but an entry in the audit log -/
theorem reported_end {id : Text} {entry : AuthAuditLog} {done : OAuthDone}
    (covered : AllCovered identityNeeds held [⟨.auth_audit_logs, id, .insert entry⟩])
    (shows : call.Shows env fin (view Database.apply fin [⟨.auth_audit_logs, id, .insert entry⟩]) done)
    (other : ∀ u user, done ≠ .returned u user) :
    OAuthEnd env call prior done fin [⟨.auth_audit_logs, id, .insert entry⟩] held :=
  ⟨covered, far_reported Evolution.far_nil, shows, fun u user same => absurd same (other u user)⟩

/-- Nothing at all -/
theorem idle_end {done : OAuthDone} (shows : call.Shows env fin fin done)
    (returned : ∀ u user, done = .returned u user → ∃ new_user, .authenticated u new_user ∈ prior) :
    OAuthEnd env call prior done fin [] held :=
  ⟨allCovered_nil, Evolution.far_nil, shows, returned⟩

/-- Errors may be told in other words. -/
theorem owns_mapError {t : Program OAuthDone} {g : Failure AuthError → Failure AuthError}
    (h : Owns env stands call prior t fin pending held) :
    Owns env stands call prior (t.mapError g) fin pending held := by
  refine .mapError (h.mono fun result _ _ after => ?_)
  cases result with
  | ok done => exact after
  | error failure => trivial

/-! ## Logins -/

/-- The account is at the end the one that was found. -/
theorem owner_of_found (unique : Unambiguous stands)
    (conforms : Conforms stands fin) {key : Text} {account account' : UserOAuthAccount}
    (known : stands key account.title) (here : fin.row .user_oauth_accounts key = some account') :
    Owner fin account.identity account.user_id :=
  ⟨key, account', here, unique key _ _ (conforms key account' here) known⟩

theorem linkedLogin_ends (unique : Unambiguous stands)
    {identity : OAuthIdentity} {clock : Clock} {new : NewIds} {key : Text} {account : UserOAuthAccount}
    {absent : AuthError} {entry : Option (UserId → AuthAuditLog)} {now : Time} {audit_id : Text}
    (known : Conforms stands fin → stands key account.title)
    (same : account.identity = identity.key env) :
    Owns env stands (.authenticate identity clock new) prior
      (linkedLogin env identity (key, account) absent entry now audit_id) fin [] [] := by
  refine get_ends fun db _ => ?_
  split
  · trivial
  · rename_i user _
    unfold ensure_user_can_authenticate
    split
    · refine update_ends (fun _ _ _ => trivial) fun _ _ => update_ends (fun _ _ _ => trivial)
        fun row there => ?_
      have here : fin.row .user_oauth_accounts key = some row := by simpa using there
      have owner : Conforms stands fin → Owner fin (identity.key env) account.user_id :=
        fun conforms => same ▸ owner_of_found unique conforms (known conforms) here
      have covered : AllCovered identityNeeds
          ((.row .user_oauth_accounts key, .noKeyUpdate) ::
            (.row .users account.user_id, .noKeyUpdate) :: ([] : Held Lock))
          [⟨.users, account.user_id, .update (user.touched env identity now)⟩,
            ⟨.user_oauth_accounts, key, .update (account.touched identity now)⟩] :=
        allCovered_pair (covered_user (by simp)) (covered_touched (by simp))
      cases entry with
      | none =>
          intro conforms
          exact ⟨covered, far_touched rfl, owner conforms, by simp⟩
      | some entry =>
          refine audited covered fun held' covered' conforms => ?_
          exact ⟨covered', far_reported (far_touched rfl), owner conforms, by simp⟩
    · simp only [Tx.bind_eq, Tx.bind_assoc]
      refine audited allCovered_nil fun held' covered _ => ?_
      exact reported_end covered trivial (by simp)

/-- The flush of an account that nobody has had -/
theorem insertAccount_ends (lowers : Lowers env) {account_id : Text} {user_id : UserId}
    {identity : OAuthIdentity} {now : Time} {f : Unit → Program OAuthDone}
    (away : ∀ w ∈ pending, w.table ≠ .user_oauth_accounts)
    (rest : ∀ held', (∀ l ∈ held, l ∈ held') →
      (create_oauth_account env user_id identity now).identity = identity.key env →
      (∀ u, ¬Owner fin (identity.key env) u) → fin.row .user_oauth_accounts account_id = none →
      Covered identityNeeds held'
        ⟨.user_oauth_accounts, account_id, .insert (create_oauth_account env user_id identity now)⟩ →
      Owns env stands call prior (f ()) fin
        (pending ++ [⟨.user_oauth_accounts, account_id,
          .insert (create_oauth_account env user_id identity now)⟩]) held') :
    Owns env stands call prior
      ((insertAccount account_id (create_oauth_account env user_id identity now)).bind f) fin pending
      held := by
  have untouched : ∀ (key : Text) (row : Option UserOAuthAccount),
      rowAfter pending .user_oauth_accounts key row = row := fun key row =>
    rowAfter_untouched (fun w mem same => absurd same (away w mem)) row
  unfold insertAccount
  split
  · rename_i provider
    have key_eq : (create_oauth_account env user_id identity now).identity = identity.key env :=
      congrArg (·, identity.subject) (lowers.normal provider).symm
    simp only [Tx.bind_eq, Tx.bind_assoc]
    refine enter_ends trivial fun db allowed free => ?_
    refine enter_ends trivial fun _ _ _ => insertRow_ends trivial fun absent => ?_
    refine referTo_ends (fun _ _ _ => trivial) fun held' more _ => ?_
    rw [untouched] at absent
    refine rest held' (fun l mem => more l (by simp [mem])) key_eq (fun u owned => ?_) absent ?_
    · -- who has it at the end has had it when the index was locked
      obtain ⟨key, account, here, title⟩ := owned
      have same : account.identity = identity.key env := congrArg Prod.snd title
      have same_created : account.identity = (create_oauth_account env user_id identity now).identity :=
        same.trans key_eq.symm
      obtain ⟨provider_eq, subject_eq⟩ := Prod.mk.inj same_created
      obtain ⟨account', there, needed, -⟩ := allowed.1.needed _ .update .update List.mem_cons_self rfl
        .user_oauth_accounts key account here ⟨by rw [provider_eq, subject_eq], rfl⟩
      have viewed : (view Database.apply db pending).row .user_oauth_accounts key = some account' := by
        rw [view_row, untouched]
        exact there
      have other := first_none (Option.isSome_eq_false_iff.mp free |> Option.isNone_iff_eq_none.mp)
        key account' viewed
      simp only [Resource.index.injEq, Key.user_oauth_accounts_identity.injEq] at needed
      simp [needed.1, needed.2] at other
    · refine covered_insert (more _ (by simp)) ?_
      rintro r m ⟨rfl, rfl⟩
      exact locks_of_mem (more _ (by simp))
  · trivial

theorem firstLogin_ends (lowers : Lowers env) {identity : OAuthIdentity} {clock : Clock} {new : NewIds} :
    Owns env stands (.authenticate identity clock new) prior (firstLogin env identity clock new) fin
      [] [] := by
  unfold firstLogin
  have looked : Adds identityNeeds (conforming stands) (fun _ => False) (existingUser env identity) := by
    unfold existingUser
    split
    · exact adds_pure _
    · exact adds_find
  refine looked.ends (fun _ _ _ => trivial) fun existing written held kept nothing _ => ?_
  obtain rfl : written = [] := List.eq_nil_iff_forall_not_mem.mpr nothing
  split
  · trivial
  · unfold insertUser
    simp only [Tx.bind_eq, Tx.bind_assoc, List.append_nil]
    refine enter_ends trivial fun _ _ _ => insertRow_ends trivial fun free => ?_
    refine update_ends (fun _ _ _ => trivial) fun _ _ => ?_
    refine insertAccount_ends lowers (fun w mem => ?_) fun held₁ more key_eq nobody absent mine => ?_
    · rcases List.mem_pair.mp mem with rfl | rfl <;> simp
    have user_covered : AllCovered identityNeeds held₁
        [⟨.users, new.user_id, .insert (newUser env identity (clock 0))⟩, ⟨.users, new.user_id,
          .update ({ · with last_login_at := some (clock 2), updated_at := clock 2 })⟩] :=
      allCovered_pair (covered_insert (more _ (by simp)) fun _ _ => False.elim)
        (covered_user (more _ (by simp)))
    refine audited (user_covered.concat mine) fun held₂ covered _ =>
      ⟨covered, ?_, ⟨nobody, ?_⟩, by simp⟩
    · have created : (titles ((OAuthCall.authenticate identity clock new).effect env
          (.authenticated new.user_id true))).Far fin
          [⟨.users, new.user_id, .insert (newUser env identity (clock 0))⟩] :=
        Evolution.far_insert free ⟨.inr rfl, fun _ => .inr ⟨rfl, rfl⟩⟩
      have signs_in : ∀ w ∈ [(⟨.users, new.user_id,
          .update ({ · with last_login_at := some (clock 2), updated_at := clock 2 })⟩ : Write Row)],
          (titles ((OAuthCall.authenticate identity clock new).effect env
            (.authenticated new.user_id true))).Keeps w := fun w mem =>
        List.mem_singleton.mp mem ▸ titles_user rfl
      have updated := created.append signs_in
      have opened : (titles ((OAuthCall.authenticate identity clock new).effect env
          (.authenticated new.user_id true))).rel .user_oauth_accounts new.account_id none
          (some (create_oauth_account env new.user_id identity (clock 1))) :=
        titles_opened ⟨rfl, congrArg (fun i => some (new.account_id, new.user_id, i)) key_eq.symm⟩
      exact far_reported (updated.insert (by simpa using absent) opened)
    · refine ⟨new.account_id, create_oauth_account env new.user_id identity (clock 1), ?_,
        congrArg (Prod.mk new.user_id) key_eq⟩
      simp [view_row, Change.on]

theorem get_by_provider_subject_ends {identity : OAuthIdentity}
    {f : Option (Text × UserOAuthAccount) → Program OAuthDone}
    (absent : Owns env stands call prior (f none) fin [] held)
    (found : ∀ key account, (Conforms stands fin → stands key account.title) →
      account.identity = identity.key env → Owns env stands call prior (f (some (key, account))) fin [] held) :
    Owns env stands call prior ((get_by_provider_subject env (normalize_provider env identity.provider)
      identity.subject).bind f) fin [] held := by
  refine find_ends (fun _ _ _ => absent) fun db key account allowed here matches_ => ?_
  obtain ⟨provider, subject⟩ : account.provider = normalize_provider env
      (normalize_provider env identity.provider) ∧ account.provider_subject = identity.subject := by
    simpa using matches_
  refine found key account (fun conforms => ?_) (Prod.ext provider subject)
  have conformed : Conforms stands db := allowed.2 conforms
  exact conformed key account here

theorem authenticate_ends (lowers : Lowers env)
    (unique : Unambiguous stands) {identity : OAuthIdentity}
    {clock : Clock} {new : NewIds} :
    Owns env stands (.authenticate identity clock new) prior
      (authenticate_oauth_identity env identity clock new) fin [] [] := by
  refine get_by_provider_subject_ends (firstLogin_ends lowers) fun key account known same => ?_
  exact owns_mapError (linkedLogin_ends unique known same)

theorem retriedLogin_ends (unique : Unambiguous stands)
    {identity : OAuthIdentity} {clock : Clock} {new : NewIds} {now : Time} {audit_id : Text} :
    Owns env stands (.authenticate identity clock new) prior
      (retriedLogin env identity now audit_id) fin [] [] :=
  get_by_provider_subject_ends trivial fun _ _ known same => linkedLogin_ends unique known same

theorem refreshUser_ends {identity : OAuthIdentity} {clock : Clock} {new : NewIds} {user_id : UserId}
    {new_user : Bool} (mem : .authenticated user_id new_user ∈ prior) :
    Owns env stands (.authenticate identity clock new) prior (refreshUser user_id) fin [] [] := by
  refine get_ends fun db _ => ?_
  split
  · trivial
  · intro conforms
    refine idle_end trivial fun u user same => ?_
    obtain ⟨rfl, -⟩ := OAuthDone.returned.inj same
    exact ⟨new_user, mem⟩

/-! ## Links -/

theorem withUser_ends {user_id : UserId} {request : User → Program OAuthDone}
    (rest : ∀ user, Owns env stands call prior (request user) fin pending held) :
    Owns env stands call prior (withUser user_id request) fin pending held := by
  refine get_ends fun db _ => ?_
  split
  · trivial
  · exact rest _

theorem refreshAccount_ends {user_id : UserId} {identity : OAuthIdentity} {now : Time} {new : NewIds}
    {account_id : Text} :
    Owns env stands (.link user_id identity now new) prior (refreshAccount account_id) fin [] [] := by
  refine get_ends fun db _ => ?_
  split
  · trivial
  · exact fun _ => idle_end trivial (by simp)

/-- The commit of a link of the user's own account -/
theorem relinked_end (unique : Unambiguous stands)
    {user_id : UserId} {identity : OAuthIdentity} {now : Time} {new : NewIds} {key id : Text}
    {account row : UserOAuthAccount} {user : User} {entry : AuthAuditLog}
    (known : Conforms stands fin → stands key account.title) (same : account.identity = identity.key env)
    (own : account.user_id = user_id) (here : fin.row .user_oauth_accounts key = some row)
    (covered : AllCovered identityNeeds held [⟨.users, user_id, .update (user.touched env identity now)⟩,
      ⟨.user_oauth_accounts, key, .update (account.touched identity now)⟩,
      ⟨.auth_audit_logs, id, .insert entry⟩]) (conforms : Conforms stands fin) :
    OAuthEnd env (.link user_id identity now new) prior (.linked key) fin
      [⟨.users, user_id, .update (user.touched env identity now)⟩,
        ⟨.user_oauth_accounts, key, .update (account.touched identity now)⟩,
        ⟨.auth_audit_logs, id, .insert entry⟩] held := by
  have title : row.title = account.title := unique key _ _ (conforms key row here) (known conforms)
  have is_owner : row.title = (user_id, identity.key env) :=
    title.trans (Prod.ext own same)
  have after : Owner (view Database.apply fin [⟨.users, user_id, .update (user.touched env identity now)⟩,
      ⟨.user_oauth_accounts, key, .update (account.touched identity now)⟩,
      ⟨.auth_audit_logs, id, .insert entry⟩]) (identity.key env) user_id :=
    ⟨key, account.touched identity now row, by simp [view_row, Change.on, here], is_owner⟩
  exact ⟨covered, far_reported (far_touched rfl), ⟨.inl ⟨key, row, here, is_owner⟩, after⟩, by simp⟩

theorem link_ends (lowers : Lowers env) (unique : Unambiguous stands)
    {user_id : UserId} {identity : OAuthIdentity} {now : Time} {new : NewIds} :
    Owns env stands (.link user_id identity now new) prior (withUser user_id fun user =>
      link_oauth_account env user_id user identity now new) fin [] [] := by
  refine withUser_ends fun user => ?_
  unfold link_oauth_account
  have looked : Adds identityNeeds (conforming stands) (fun _ => False)
      (get_for_user_provider env user_id (normalize_provider env identity.provider)) := adds_find
  refine get_by_provider_subject_ends ?_ fun key account known same => ?_
  · simp only [Option.any_none, Bool.false_eq_true, if_false]
    refine looked.ends (fun _ _ _ => trivial) fun existing written held kept nothing _ => ?_
    obtain rfl : written = [] := List.eq_nil_iff_forall_not_mem.mpr nothing
    split
    · trivial
    · refine owns_mapError (update_ends (fun _ _ _ => trivial) fun _ _ => ?_)
      simp only [Tx.bind_eq, List.append_nil, List.nil_append]
      refine insertAccount_ends lowers (fun w mem => ?_) fun held₁ more key_eq nobody absent mine => ?_
      · obtain rfl := List.mem_singleton.mp mem
        simp
      refine audited ((allCovered_nil.concat (covered_user (more _ (by simp)))).concat mine)
        fun held₂ covered _ => ⟨covered, ?_, ⟨.inr nobody, ?_⟩, by simp⟩
      · have touched : (titles ((OAuthCall.link user_id identity now new).effect env
            (.linked new.account_id))).Far fin
            [⟨.users, user_id, .update (user.touched env identity now)⟩] :=
          Evolution.far_of_keeps fun w mem => List.mem_singleton.mp mem ▸ titles_user rfl
        have opened : (titles ((OAuthCall.link user_id identity now new).effect env
            (.linked new.account_id))).rel .user_oauth_accounts new.account_id none
            (some (create_oauth_account env user_id identity now)) :=
          titles_opened (congrArg (fun i => some (new.account_id, user_id, i)) key_eq.symm)
        exact far_reported (touched.insert (by simpa using absent) opened)
      · refine ⟨new.account_id, create_oauth_account env user_id identity now, ?_,
          congrArg (Prod.mk user_id) key_eq⟩
        simp [view_row, Change.on]
  · split
    · trivial
    · rename_i mine
      have own : account.user_id = user_id := by simpa using mine
      refine looked.ends (fun _ _ _ => trivial) fun existing written held kept nothing _ => ?_
      obtain rfl : written = [] := List.eq_nil_iff_forall_not_mem.mpr nothing
      split
      · trivial
      · refine owns_mapError (update_ends (fun _ _ _ => trivial) fun _ _ => ?_)
        simp only [Tx.bind_eq, List.append_nil, List.nil_append]
        refine update_ends (fun _ _ _ => trivial) fun row there => ?_
        have here : fin.row .user_oauth_accounts key = some row := by simpa using there
        have covered : AllCovered identityNeeds ((.row .user_oauth_accounts key, .noKeyUpdate) ::
            (.row .users user_id, .noKeyUpdate) :: held)
            [⟨.users, user_id, .update (user.touched env identity now)⟩,
              ⟨.user_oauth_accounts, key, .update (account.touched identity now)⟩] :=
          allCovered_pair (covered_user (by simp)) (covered_touched (by simp))
        exact audited covered fun held' covered' conforms =>
          relinked_end unique known same own here covered' conforms

/-! ## Unlinks and deletions -/

theorem unlink_ends (unique : Unambiguous stands) {user_id : UserId}
    {provider audit_id : Text} :
    Owns env stands (.unlink user_id provider audit_id) prior (signedIn user_id fun user =>
      unlink_oauth_account env user_id user provider audit_id) fin [] [] := by
  refine signedIn_ends (fun _ => trivial) fun user => ?_
  refine find_ends (fun _ _ _ => trivial) fun db key account allowed here matches_ => ?_
  obtain ⟨own, named⟩ : account.user_id = user_id ∧ account.provider =
      normalize_provider env (normalize_provider env provider) := by
    simpa using matches_
  refine findAll_ends fun _ others _ _ => ?_
  split
  · trivial
  · refine audited allCovered_nil fun held' covered => ?_
    have reported : (titles ((OAuthCall.unlink user_id provider audit_id).effect env .unlinked)).Far fin
        [⟨.auth_audit_logs, audit_id, .insert (ownEntry user_id "OAUTH_ACCOUNT_UNLINKED"
          [("provider", asString (normalize_provider env provider))])⟩] :=
      far_reported Evolution.far_nil
    refine deleteRow_ends (fun _ _ => ?_) fun row there conforms => ?_
    · exact ⟨covered.among fun _ mem => List.mem_cons_of_mem _ mem, reported, trivial, by simp⟩
    · have conformed : Conforms stands db := allowed.2 conforms
      have title : row.title = account.title :=
        unique key _ _ (conforms key row (by simpa using there)) (conformed key account here)
      refine ⟨(covered.among fun _ mem => List.mem_cons_of_mem _ mem).concat (locks_of_mem (by simp)),
        reported.concat ?_, trivial, by simp⟩
      rw [List.nil_append] at there
      rw [there]
      refine titles_closed ?_
      rw [title]
      exact ⟨own, named⟩

section

variable {extra : Restraint Db} {effect : Effect} {user_id : UserId}

/-- A statement about a table of which nothing is said -/
theorem deletes_user_accounts (closes : ∀ title : Title, title.1 = user_id → effect.closes title) :
    Evolution.Evolves identityNeeds extra (titles effect)
      (deleteAll .user_oauth_accounts (·.user_id == user_id)) := by
  refine Evolution.evolves_deleteWhere fun key row matches_ => titles_closed ?_
  have own : row.user_id = user_id := by simpa using matches_
  exact closes row.title own

theorem removeTraces_evolves (closes : ∀ title : Title, title.1 = user_id → effect.closes title) :
    Evolution.Evolves identityNeeds extra (titles effect) (removeTraces user_id) := by
  refine .bind ?_ fun _ => .bind ?_ fun _ => .bind (deletes_user_accounts closes) fun _ => .bind ?_
    fun _ => .bind ?_ fun _ => ?_
  case refine_1 | refine_2 => exact Evolution.evolves_updateWhere (fun _ _ _ => id) fun _ _ _ => trivial
  all_goals exact Evolution.evolves_deleteWhere fun _ _ _ => trivial

theorem cascade_evolves (closes : ∀ title : Title, title.1 = user_id → effect.closes title) :
    Evolution.Evolves identityNeeds extra (titles effect) (cascade user_id) := by
  refine .bind ?_ fun _ => .bind ?_ fun _ => .bind ?_ fun _ => .bind ?_ fun _ => .bind ?_ fun _ =>
    .bind ?_ fun _ => .bind (deletes_user_accounts closes) fun _ => .bind ?_ fun _ => ?_
  all_goals exact Evolution.evolves_deleteWhere fun _ _ _ => trivial

theorem locked_user_evolves : Evolution.Evolves identityNeeds extra (titles effect)
    (_lock_user_and_protect_last_superuser user_id) := by
  refine Evolution.evolves_of_adds (.bind (.bind adds_selectForUpdate fun found => ?_) fun found => ?_)
  · split <;> exact adds_pure _
  · split
    · exact adds_raise _
    · split
      · refine .bind adds_lockWhere fun ids => ?_
        split
        · exact adds_raise _
        · exact adds_pure _
      · exact adds_pure _

theorem deactivate_evolves {now : Time} {audit_id : Text} (touches : effect.touches user_id) :
    Evolution.Evolves identityNeeds extra (titles effect)
      (deactivate_own_account user_id now audit_id) := by
  unfold deactivate_own_account
  refine .bind locked_user_evolves fun user => ?_
  split
  · refine .bind ?_ fun _ => .bind ?_ fun _ => .bind ?_ fun _ => Evolution.evolves_of_adds (adds_pure _)
    · exact Evolution.evolves_of_adds (adds_update (fun _ _ _ => id) (titles_user touches))
    · exact Evolution.evolves_updateWhere (fun _ _ _ => id) fun _ _ _ => trivial
    · exact Evolution.evolves_of_adds (adds_insertAudit (fun _ _ needed => needed) titles_audit)
  · exact Evolution.evolves_of_adds (adds_pure _)

theorem delete_evolves {confirmation_text : Text} {current_password : Option Text}
    {authenticated_at : Option Time} {now : Time} {audit_id : Text}
    (closes : ∀ title : Title, title.1 = user_id → effect.closes title)
    (touches : effect.touches user_id) :
    Evolution.Evolves identityNeeds extra (titles effect)
      (delete_own_account env user_id confirmation_text current_password authenticated_at now
        audit_id) := by
  unfold delete_own_account
  split
  · exact Evolution.evolves_of_adds (adds_raise _)
  · refine .bind locked_user_evolves fun user => ?_
    split
    · exact Evolution.evolves_of_adds (adds_raise _)
    · refine .bind (removeTraces_evolves closes) fun _ => .bind ?_ fun _ => .bind ?_ fun _ =>
        .bind (cascade_evolves closes) fun _ => Evolution.evolves_of_adds (adds_pure _)
      · exact Evolution.evolves_of_adds (adds_insertAudit (fun _ _ needed => needed) titles_audit)
      · exact Evolution.evolves_of_adds (adds_deleteRow fun row => ⟨.inr touches, fun _ => .inl rfl⟩)

end

theorem leaving_ends (leaving : LeavingCall) :
    Owns env stands (.leave leaving) prior
      ((leaving.program env).bind fun left => .done (.left left)) fin [] [] := by
  have evolves : Evolution.Evolves identityNeeds (conforming stands)
      (titles ((OAuthCall.leave leaving).effect env (.left .unchanged))) (leaving.program env) := by
    cases leaving with
    | deactivate => exact deactivate_evolves rfl
    | delete => exact delete_evolves (fun _ => id) rfl
  refine evolves.ends allCovered_nil Evolution.far_nil (fun _ _ _ => trivial)
    fun left pending' held' _ covered far _ => ⟨covered, ?_, trivial, by simp⟩
  cases leaving with
  | deactivate | delete => exact far

theorem oauthJob_ends (lowers : Lowers env) (unique : Unambiguous stands) (call : OAuthCall) :
    JobEnds Database.apply (peers identityNeeds (conforming stands)) (oauthEnds env stands call) []
      (call.job env) := by
  have refreshed : ∀ {identity clock new result job}, afterLogin result = some job →
      JobEnds Database.apply (peers identityNeeds (conforming stands))
        (oauthEnds env stands (.authenticate identity clock new)) (extend [] result) job := by
    intro identity clock new result job follows
    unfold afterLogin at follows
    split at follows
    · obtain rfl := Option.some.inj follows
      exact .only fun fin => refreshUser_ends List.mem_cons_self
    · cases follows
  cases call with
  | authenticate identity clock new =>
      refine .stage (fun fin => authenticate_ends lowers unique) fun result job follows => ?_
      split at follows
      · obtain rfl := Option.some.inj follows
        exact .stage (fun fin => retriedLogin_ends unique) fun result job follows => refreshed follows
      · exact refreshed follows
  | link user_id identity now new =>
      refine .stage (fun fin => link_ends lowers unique) fun result job follows => ?_
      split at follows
      · obtain rfl := Option.some.inj follows
        exact .only fun fin => refreshAccount_ends
      · cases follows
  | unlink => exact .only fun fin => unlink_ends unique
  | leave leaving => exact .only fun fin => leaving_ends leaving

end

/-! ## One commit -/

def OneOwner (db : Db) : Prop := ∀ i u v, Owner db i u → Owner db i v → u = v

/-- The register of the owners -/
def ownerOf (db : Db) : Owners ProviderIdentity UserId := fun i =>
  (db.first .user_oauth_accounts fun _ account => account.identity == i).map (·.2.user_id)

theorem ownerOf_represents {db : Db} (one : OneOwner db) : Represents (ownerOf db) (Owner db) := by
  intro i u
  unfold ownerOf
  cases found : db.first .user_oauth_accounts fun _ account => account.identity == i with
  | none =>
      refine ⟨fun impossible => (by cases impossible), fun ⟨key, account, here, title⟩ => ?_⟩
      have other := first_none found key account here
      have same : account.identity = i := congrArg Prod.snd title
      simp [same] at other
  | some entry =>
      obtain ⟨key, account⟩ := entry
      obtain ⟨here, matches_⟩ := first_some found
      have same : account.identity = i := by simpa using matches_
      have owner : Owner db i account.user_id := ⟨key, account, here, Prod.ext rfl same⟩
      exact ⟨fun same => Option.some.inj same ▸ owner, fun owned => congrArg some (one i _ _ owner owned)⟩

section

variable {effect : Effect} {a b : Db} {i : ProviderIdentity} {u : UserId}

theorem owner_kept (across : (titles effect).Across a b) (owned : Owner a i u) :
    Owner b i u ∨ effect.closes (u, i) := by
  obtain ⟨key, account, here, title⟩ := owned
  rcases (across .user_oauth_accounts key).1 account here with ⟨account', there, same⟩ | closed
  · exact .inl ⟨key, account', there, same.trans title⟩
  · exact .inr (title ▸ closed)

theorem owner_stems (across : (titles effect).Across a b) (owned : Owner b i u) :
    Owner a i u ∨ ∃ key, effect.opens key (u, i) := by
  obtain ⟨key, account', there, title⟩ := owned
  rcases (across .user_oauth_accounts key).2 account' there with ⟨account, here, same⟩ | opened
  · exact .inl ⟨key, account, here, same.trans title⟩
  · exact .inr ⟨key, title ▸ opened⟩

end

/-- The move in the register that the end of a transaction makes -/
def OAuthCall.move (env : Environment) : OAuthCall → OAuthDone → Move ProviderIdentity UserId
  | .authenticate identity _ _, .authenticated user_id new_user =>
      .enter (identity.key env) user_id new_user
  | .link user_id identity _ _, .linked _ => .join (identity.key env) user_id
  | .unlink user_id provider _, .unlinked =>
      .release (fun i => i.1 = normalize_provider env (normalize_provider env provider)) user_id
  | .leave (.delete user_id ..), .left _ => .release (fun _ => True) user_id
  | _, _ => .idle

section

variable {env : Environment} {call : OAuthCall} {done : OAuthDone} {effect : Effect} {a b : Db}
  {i : ProviderIdentity} {u : UserId}

theorem OneOwner.gain (one : OneOwner a) (before : ∀ v, Owner a i v → v = u)
    (gained : ∀ j v, Owner b j v ↔ Owner a j v ∨ j = i ∧ v = u) : OneOwner b := by
  intro j v w first second
  rcases (gained j v).mp first with old | ⟨rfl, rfl⟩
  · rcases (gained j w).mp second with old' | ⟨rfl, rfl⟩
    · exact one j v w old old'
    · exact before v old
  · rcases (gained j w).mp second with old' | ⟨-, rfl⟩
    · exact (before w old').symm
    · rfl

/-- Nothing is opened or closed. -/
theorem quiet_register (one : OneOwner a) (across : (titles effect).Across a b)
    (opens : ∀ key title, ¬effect.opens key title) (closes : ∀ title, ¬effect.closes title) :
    OneOwner b ∧ ownerOf b = ownerOf a := by
  have same : ∀ j v, Owner b j v ↔ Owner a j v := fun j v =>
    ⟨fun owned => (owner_stems across owned).resolve_right fun ⟨key, opened⟩ => opens key _ opened,
      fun owned => (owner_kept across owned).resolve_right (closes _)⟩
  have one' : OneOwner b := fun j v w first second =>
    one j v w ((same j v).mp first) ((same j w).mp second)
  exact ⟨one', (ownerOf_represents one).same (ownerOf_represents one') same⟩

/-- An account may be opened for one identity, for its owner. -/
theorem gain_register (one : OneOwner a) (across : (titles effect).Across a b)
    (opens : ∀ key v j, effect.opens key (v, j) → j = i ∧ v = u) (closes : ∀ title, ¬effect.closes title)
    (before : ∀ v, Owner a i v → v = u) (after : Owner b i u) :
    OneOwner b ∧ ownerOf b = Function.update (ownerOf a) i (some u) := by
  have gained : ∀ j v, Owner b j v ↔ Owner a j v ∨ j = i ∧ v = u := by
    intro j v
    constructor
    · intro owned
      exact (owner_stems across owned).imp_right fun ⟨key, opened⟩ => opens key v j opened
    · rintro (old | ⟨rfl, rfl⟩)
      · exact (owner_kept across old).resolve_right (closes _)
      · exact after
  have one' := one.gain before gained
  exact ⟨one', (ownerOf_represents one).gain (ownerOf_represents one') gained⟩

/-- Accounts are closed, within a scope and of one user. -/
theorem loss_register {scope : ProviderIdentity → Prop} (one : OneOwner a)
    (across : (titles effect).Across a b) (opens : ∀ key title, ¬effect.opens key title)
    (closes : ∀ v j, effect.closes (v, j) → scope j ∧ v = u) :
    OneOwner b ∧ Moves (ownerOf a) (ownerOf b) (.release scope u) := by
  have fewer : ∀ j v, Owner b j v → Owner a j v := fun j v owned =>
    (owner_stems across owned).resolve_right fun ⟨key, opened⟩ => opens key _ opened
  have kept : ∀ j v, Owner a j v → Owner b j v ∨ scope j ∧ v = u := fun j v owned =>
    (owner_kept across owned).imp_right (closes v j)
  have one' : OneOwner b := fun j v w first second => one j v w (fewer j v first) (fewer j w second)
  exact ⟨one', (ownerOf_represents one).loss (ownerOf_represents one') fewer kept⟩

/-- What the effect of a call may open is the call's account. -/
theorem effect_opens {key : Text} {title : Title} (opened : (call.effect env done).opens key title) :
    call.account env = some (key, title) := by
  cases call with
  | authenticate =>
      cases done with
      | authenticated => exact opened.2
      | _ => cases opened
  | link =>
      cases done with
      | linked => exact opened
      | _ => cases opened
  | unlink => cases done <;> cases opened
  | leave leaving => cases leaving <;> cases done <;> cases opened

/-- Every commit makes its move, and leaves at most one owner. -/
theorem commit_moves (one : OneOwner a) (across : (titles (call.effect env done)).Across a b)
    (shows : call.Shows env a b done) :
    OneOwner b ∧ Moves (ownerOf a) (ownerOf b) (call.move env done) := by
  have represents := ownerOf_represents one
  cases call with
  | authenticate identity clock new =>
      cases done with
      | authenticated user_id new_user =>
          cases new_user with
          | true =>
              obtain ⟨nobody, after⟩ := shows
              -- the owner at the end is the one whom the new account names
              have drawn : user_id = new.user_id := by
                rcases owner_stems across after with before | ⟨key, -, opened⟩
                · exact absurd before (nobody user_id)
                · exact (congrArg (·.2.1) (Option.some.inj opened)).symm
              have gained := gain_register one across (i := identity.key env) (u := user_id)
                (fun key v j opened => ?_) (fun _ => id) (fun v owned => absurd owned (nobody v)) after
              · exact ⟨gained.1, represents.free nobody, gained.2⟩
              · have same := Option.some.inj opened.2
                exact ⟨(congrArg (·.2.2) same).symm, (congrArg (·.2.1) same).symm.trans drawn.symm⟩
          | false =>
              have gained := gain_register one across (i := identity.key env) (u := user_id)
                (fun key v j opened => (by cases opened.1)) (fun _ => id)
                (fun v owned => one _ v user_id owned shows) ?_
              · exact ⟨gained.1, (represents _ user_id).mpr shows, gained.2⟩
              · exact (owner_kept across shows).resolve_right id
      | _ => exact quiet_register one across (fun _ _ => id) fun _ => id
  | link user_id identity now new =>
      cases done with
      | linked account_id =>
          obtain ⟨before, after⟩ := shows
          have gained := gain_register one across (i := identity.key env) (u := user_id)
            (fun key v j opened => ?_) (fun _ => id) (fun v owned => ?_) after
          · refine ⟨gained.1, ?_, gained.2⟩
            rcases before with mine | nobody
            · exact .inr ((represents _ user_id).mpr mine)
            · exact .inl (represents.free nobody)
          · have same := Option.some.inj opened
            exact ⟨(congrArg (·.2.2) same).symm, (congrArg (·.2.1) same).symm⟩
          · rcases before with mine | nobody
            · exact one _ v user_id owned mine
            · exact absurd owned (nobody v)
      | _ => exact quiet_register one across (fun _ _ => id) fun _ => id
  | unlink user_id provider audit_id =>
      cases done with
      | unlinked => exact loss_register one across (fun _ _ => id) fun v j closed => ⟨closed.2, closed.1⟩
      | _ => exact quiet_register one across (fun _ _ => id) fun _ => id
  | leave leaving =>
      cases leaving with
      | deactivate => cases done <;> exact quiet_register one across (fun _ _ => id) fun _ => id
      | delete =>
          cases done with
          | left => exact loss_register one across (fun _ _ => id) fun v j closed => ⟨trivial, closed⟩
          | _ => exact quiet_register one across (fun _ _ => id) fun _ => id

end

end PackageRegistry.Accounts
