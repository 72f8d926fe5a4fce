import PackageRegistry.Accounts.MfaRules
import PackageRegistry.Accounts.Superusers

/-! # Setting up the authenticator app

`confirm_totp_setup` locks only the method that it enables, while `start_totp_setup` locks
the user before it looks for an enabled method. What keeps the two apart is the audit log:
its entry refers to the user, so a confirmation does not commit while a setup holds the
user's row. Seen from the end: an enabled method needs a shared lock on its user.
-/

namespace PackageRegistry.Accounts

open Transactions Relational Runs
open PackageRegistry.Auth (UserId Time AuthError)

inductive SetupCall where
  | start (user_id : UserId) (secret nonce method_id : Text) (clock : Clock) (audit_id : Text)
  | confirm (user_id : UserId) (code : Text) (clock : Clock) (codes : NewCodes) (audit_id : Text)
  | disable (user_id : UserId) (given : Credentials) (clock : Clock) (audit_id : Text)

inductive SetupDone where
  | started (secret : Text)
  | confirmed (accepted : TotpConfirmed)
  | disabled

def SetupCall.program (env : Environment) : SetupCall → Program SetupDone
  | .start user_id secret nonce method_id clock audit_id =>
      signedIn user_id fun _ => do
        let secret ← start_totp_setup env user_id secret nonce method_id clock audit_id
        pure (.started secret)
  | .confirm user_id code clock codes audit_id =>
      signedIn user_id fun _ => do
        let accepted ← confirm_totp_setup env user_id code clock codes audit_id
        pure (.confirmed accepted)
  | .disable user_id given clock audit_id =>
      signedIn user_id fun user => do
        let _ ← disable_mfa env user_id user given clock audit_id
        pure .disabled

def SetupCall.isStart : SetupCall → Bool
  | .start .. => true
  | _ => false

def UserMfaMethod.enabledTotp (method : UserMfaMethod) : Bool :=
  method.type == "totp" && method.is_enabled

/-- The call has accepted a valid code for the secret of this method of its user. -/
def Accepts (env : Environment) (call : SetupCall) (done : SetupDone) (method : UserMfaMethod) : Prop :=
  ∃ code clock codes audit_id accepted secret,
    call = .confirm method.user_id code clock codes audit_id ∧ done = .confirmed accepted ∧
      accepted.user_id = method.user_id ∧ accepted.secret_encrypted = method.secret_encrypted ∧
      env.decrypt_mfa_secret method.secret_encrypted = some secret ∧
      ValidCode env secret code (clock 1) accepted.counter

/-! ## Enabled methods -/

/-- A method that is enabled afterwards was enabled before, for the same user and with the
    same secret. -/
def KeepsEnabled (old new : Option UserMfaMethod) : Prop :=
  ∀ row', new = some row' → row'.enabledTotp = true → ∃ row, old = some row ∧
    row.enabledTotp = true ∧ row.user_id = row'.user_id ∧ row.secret_encrypted = row'.secret_encrypted

theorem KeepsEnabled.refl (row : Option UserMfaMethod) : KeepsEnabled row row :=
  fun row' here enabled => ⟨row', here, enabled, rfl, rfl⟩

theorem KeepsEnabled.trans {a b c : Option UserMfaMethod} (first : KeepsEnabled a b)
    (second : KeepsEnabled b c) : KeepsEnabled a c := by
  intro row'' here enabled
  obtain ⟨row', here', enabled', owner', secret'⟩ := second row'' here enabled
  obtain ⟨row, here, enabled, owner, secret⟩ := first row' here' enabled'
  exact ⟨row, here, enabled, owner.trans owner', secret.trans secret'⟩

/-- A write that enables nothing, and leaves the users alone -/
def Modest (w : Write Row) : Prop :=
  w.table ≠ .users ∧ ∀ key row, KeepsEnabled row (w.onRow .user_mfa_methods key row)

theorem keeps_rowAfter {pending : List (Write Row)} (modest : ∀ w ∈ pending, Modest w) (key : Text)
    (row : Option UserMfaMethod) : KeepsEnabled row (rowAfter pending .user_mfa_methods key row) := by
  induction pending generalizing row with
  | nil => exact .refl row
  | cons w ws ih =>
      exact ((modest w (by simp)).2 key row).trans (ih (fun w' mem => modest w' (by simp [mem])) _)

theorem modest_other {T : TableName} (users : T ≠ .users) (methods : T ≠ .user_mfa_methods)
    (key : Text) (change : Change (Row T)) : Modest ⟨T, key, change⟩ := by
  refine ⟨users, fun key' row => ?_⟩
  rw [onRow_other methods]
  exact .refl row

theorem modest_update {g : UserMfaMethod → UserMfaMethod} (key : Text)
    (keeps : ∀ row, KeepsEnabled (some row) (some (g row))) :
    Modest ⟨.user_mfa_methods, key, .update g⟩ := by
  refine ⟨by simp, fun key' row => ?_⟩
  rw [onRow_same]
  split
  · cases row with
    | none => exact fun _ gone => by cases gone
    | some row => exact keeps row
  · exact .refl row

theorem modest_delete (key : Text) : Modest ⟨.user_mfa_methods, key, .delete⟩ := by
  refine ⟨by simp, fun key' row => ?_⟩
  rw [onRow_same]
  split
  · exact fun _ gone => by cases gone
  · exact .refl row

/-- A method is enabled only under a shared lock on its user. -/
def enabledNeeds : Needed
  | .user_mfa_methods, row, r, m =>
      row.enabledTotp = true ∧ r = .row .users row.user_id ∧ m = .keyShare
  | _, _, _, _ => False

/-! ## The writes of the three calls -/

section

variable {extra : Restraint Db} (env : Environment)

theorem consume_factor_modest (method_id : Text) (method : UserMfaMethod)
    (code recovery_code : Option Text) (clock : Clock) :
    Adds enabledNeeds extra Modest
      (_consume_factor env method_id method code recovery_code clock) := by
  have uses : ∀ g : UserMfaMethod → UserMfaMethod, (∀ row, (g row).enabledTotp = row.enabledTotp ∧
      (g row).user_id = row.user_id ∧ (g row).secret_encrypted = row.secret_encrypted) →
      Adds enabledNeeds extra Modest (update .user_mfa_methods method_id g) := by
    intro g same
    refine adds_update (fun row r m needed => ?_) (modest_update _ fun row row' here enabled => ?_)
    · simpa only [enabledNeeds, (same row).1, (same row).2.1] using needed
    · obtain rfl := Option.some.inj here
      exact ⟨row, rfl, (same row).1.symm.trans enabled, (same row).2.1.symm, (same row).2.2.symm⟩
  unfold _consume_factor
  split
  · refine .bind ?_ fun secret => .bind ?_ fun found => ?_
    · unfold _secret_decrypt
      split
      · exact adds_pure _
      · exact adds_raise _
    · unfold _matching_counter
      split
      · exact adds_pure _
      · split
        · exact adds_pure _
        · exact adds_raise _
    · split
      · exact adds_pure _
      · split
        · exact adds_pure _
        · refine .bind ?_ fun _ => adds_pure _
          exact uses _ fun _ => ⟨rfl, rfl, rfl⟩
  · split
    · exact adds_raise _
    · refine .bind adds_findForUpdate fun found => ?_
      split
      · exact adds_pure _
      · refine .bind ?_ fun _ => .bind ?_ fun _ => adds_pure _
        · exact adds_update (fun _ _ _ => id) (modest_other (by decide) (by decide) _ _)
        · exact uses _ fun _ => ⟨rfl, rfl, rfl⟩

theorem replace_recovery_codes_modest (user_id : UserId) (codes : NewCodes) :
    Adds enabledNeeds extra Modest (_replace_recovery_codes env user_id codes) := by
  refine .bind (adds_deleteAll fun _ => modest_other (by decide) (by decide) _ _) fun _ => ?_
  induction codes with
  | nil => exact adds_pure _
  | cons code rest ih =>
      refine .bind adds_unique fun _ => .bind ?_ fun _ => .bind adds_referTo fun _ => ih
      exact adds_insert (fun _ _ => id) (modest_other (by decide) (by decide) _ _)

theorem audit_modest (audit_id : Text) (entry : AuthAuditLog) :
    Adds enabledNeeds extra Modest (insertAudit audit_id entry) :=
  adds_insertAudit (fun _ _ => id) (modest_other (by decide) (by decide) _ _)

theorem disable_mfa_modest (user_id : UserId) (user : User) (given : Credentials) (clock : Clock)
    (audit_id : Text) :
    Adds enabledNeeds extra Modest (disable_mfa env user_id user given clock audit_id) := by
  refine .bind ?_ fun shown => .bind ?_ fun _ => .bind ?_ fun _ => .bind ?_ fun _ => .bind ?_ fun _ =>
    .bind (audit_modest _ _) fun _ => adds_pure _
  · refine .bind adds_findForUpdate fun found => ?_
    split
    · exact adds_raise _
    · split
      · exact adds_raise _
      · refine .bind (consume_factor_modest env _ _ _ _ _) fun used => ?_
        split
        · exact adds_raise _
        · exact adds_pure _
  · exact adds_deleteAll fun _ => modest_other (by decide) (by decide) _ _
  · exact adds_deleteAll modest_delete
  · exact adds_updateAll (fun _ _ _ => id) fun _ => modest_other (by decide) (by decide) _ _
  · exact adds_updateAll (fun _ _ _ => id) fun _ => modest_other (by decide) (by decide) _ _

end

/-! ## What a call has done when it commits -/

/-- The methods that are enabled when a call has committed, and the ones that were -/
structure SetupEnd (env : Environment) (call : SetupCall) (done : SetupDone) (fin : Db)
    (pending : List (Write Row)) (held : Held Lock) : Prop where
  lawful : Lawful enabledNeeds held fin (view Database.apply fin pending)
  users : ∀ w ∈ pending, w.table ≠ .users
  enabled : ∀ key method, rowAfter pending .user_mfa_methods key (fin.row .user_mfa_methods key) =
      some method → method.enabledTotp = true →
    (∃ old, fin.row .user_mfa_methods key = some old ∧ old.enabledTotp = true ∧
      old.user_id = method.user_id ∧ old.secret_encrypted = method.secret_encrypted) ∨
    Accepts env call done method
  spared : call.isStart = true → ∀ key method, fin.row .user_mfa_methods key = some method →
    method.enabledTotp = true →
    rowAfter pending .user_mfa_methods key (fin.row .user_mfa_methods key) = some method

def setupEnds (env : Environment) (call : SetupCall) : Ending SetupDone
  | .ok done, fin, pending, held => SetupEnd env call done fin pending held
  | .error _, _, _, _ => True

abbrev Closes (env : Environment) (call : SetupCall) (t : Program SetupDone) (fin : Db) : Prop :=
  Closing enabledNeeds noNewUsers (setupEnds env call) t fin [] []

section

variable {env : Environment} {call : SetupCall} {fin : Db} {user_id : UserId}

theorem disable_ends (given : Credentials) (clock : Clock) (audit_id : Text) :
    Closes env (.disable user_id given clock audit_id)
      ((SetupCall.disable user_id given clock audit_id).program env) fin := by
  refine signedIn_ends (fun _ => trivial) fun user => ?_
  refine (disable_mfa_modest env user_id user given clock audit_id).ends (fun _ _ _ => trivial)
    fun _ written held _ modest covered => ?_
  exact ⟨covered.lawful, fun w mem => (modest w mem).1,
    fun key method here enabled => .inl (keeps_rowAfter modest key _ method here enabled),
    fun isStart => by cases isStart⟩

theorem none_enabled {db : Db} {held : Held Lock}
    (locked : (.row .users user_id, .update) ∈ held)
    (allowed : (peers enabledNeeds noNewUsers).allows held db fin)
    (none_found : ∀ key row, db.row .user_mfa_methods key = some row →
      (row.user_id == user_id && row.type == "totp" && row.is_enabled) = false)
    (key : Text) (method : UserMfaMethod) (here : fin.row .user_mfa_methods key = some method)
    (mine : method.user_id = user_id) : method.enabledTotp = false := by
  refine Bool.eq_false_iff.mpr fun enabled => ?_
  subst mine
  obtain ⟨old, before, enabled', owner, -⟩ := allowed.1.needed _ _ .keyShare locked rfl
    .user_mfa_methods key method here ⟨enabled, rfl, rfl⟩
  have absent := none_found key old before
  simp only [UserMfaMethod.enabledTotp] at enabled'
  have same : method.user_id = old.user_id := by simpa using owner
  simp [same, enabled'] at absent

/-- No write touches an enabled method, or leaves one behind. -/
def Untouched (fin : Db) (pending : List (Write Row)) : Prop :=
  ∀ key, rowAfter pending .user_mfa_methods key (fin.row .user_mfa_methods key) =
      fin.row .user_mfa_methods key ∨
    (∀ method, fin.row .user_mfa_methods key = some method → method.enabledTotp = false) ∧
      ∃ method, rowAfter pending .user_mfa_methods key (fin.row .user_mfa_methods key) = some method ∧
        method.enabledTotp = false

theorem Untouched.setupEnd {done : SetupDone} {pending : List (Write Row)} {held : Held Lock}
    (h : Untouched fin pending) (covered : AllCovered enabledNeeds held pending)
    (users : ∀ w ∈ pending, w.table ≠ .users) : SetupEnd env call done fin pending held := by
  refine ⟨covered.lawful, users, fun key method here enabled => .inl ?_,
    fun _ key method here enabled => ?_⟩
  · rcases h key with same | ⟨-, new, there, disabled⟩
    · exact ⟨method, same.symm.trans here, enabled, rfl, rfl⟩
    · obtain rfl := Option.some.inj (here.symm.trans there)
      simp [disabled] at enabled
  · rcases h key with same | ⟨never, -⟩
    · exact same.trans here
    · simp [never method here] at enabled

theorem untouched_setUp {present : Text} {method : UserMfaMethod}
    (here : fin.row .user_mfa_methods present = some method) (disabled : method.enabledTotp = false)
    (secret_encrypted : Text) (setup_expires_at : Time) :
    Untouched fin [⟨.user_mfa_methods, present, .update (·.setUp secret_encrypted setup_expires_at)⟩] := by
  intro key
  rw [rowAfter_cons, rowAfter_nil, onRow_same]
  split
  · rename_i same
    subst same
    rw [here]
    refine .inr ⟨fun old there => ?_, _, rfl, disabled⟩
    rwa [← Option.some.inj there]
  · exact .inl rfl

theorem untouched_insert {method_id : Text} {method : UserMfaMethod}
    (free : fin.row .user_mfa_methods method_id = none) (disabled : method.enabledTotp = false) :
    Untouched fin [⟨.user_mfa_methods, method_id, .insert method⟩] := by
  intro key
  rw [rowAfter_cons, rowAfter_nil, onRow_same]
  split
  · rename_i same
    subst same
    refine .inr ⟨fun old there => ?_, method, rfl, disabled⟩
    rw [free] at there
    cases there
  · exact .inl rfl

/-- The end of `start_totp_setup`: the entry in the audit log shows that the user is there. -/
theorem started_ends {pending : List (Write Row)} {held : Held Lock} {secret audit_id : Text}
    (covered : AllCovered enabledNeeds held pending) (users : ∀ w ∈ pending, w.table ≠ .users)
    (untouched : ∀ user, fin.row .users user_id = some user → Untouched fin pending) :
    Closing enabledNeeds noNewUsers (setupEnds env call)
      ((_audit audit_id user_id "MFA_SETUP_STARTED" []).bind fun _ => .done (.started secret))
      fin pending held := by
  refine insertAudit_ends (fun _ _ _ => trivial) (fun _ _ => id) fun held' kept actor logged => ?_
  obtain ⟨-, user, there⟩ := actor user_id rfl
  rw [rowAfter_untouched fun w mem same => absurd same (users w mem)] at there
  refine Untouched.setupEnd (fun key => ?_) ((covered.among kept).concat logged) fun w mem => ?_
  · simpa using untouched user there key
  · rcases List.mem_append.mp mem with old | new
    · exact users w old
    · rw [List.mem_singleton.mp new]
      simp

theorem start_ends (secret nonce method_id : Text) (clock : Clock) (audit_id : Text) :
    Closes env (.start user_id secret nonce method_id clock audit_id)
      ((SetupCall.start user_id secret nonce method_id clock audit_id).program env) fin := by
  refine signedIn_ends (fun _ => trivial) fun _ => ?_
  unfold start_totp_setup
  simp only [Tx.bind_eq, Tx.bind_assoc]
  refine lock_ends fun _ held _ locked => ?_
  refine find_ends (fun db allowed none_found => ?_) fun _ _ _ _ _ _ => trivial
  -- without the user's row, nothing is locked; but then the audit log refuses its entry
  have disabled : ∀ user, fin.row .users user_id = some user → ∀ key method,
      fin.row .user_mfa_methods key = some method → method.user_id = user_id →
      method.enabledTotp = false := by
    intro user there
    rcases locked with mem | ⟨db', allowed', gone⟩
    · exact none_enabled mem allowed none_found
    · have none_there := allowed'.2 user_id gone
      rw [there] at none_there
      cases none_there
  simp only [Tx.bind_assoc]
  refine findForUpdate_either (fun held' _ => ?absent) fun present method here owned => ?present
  case absent =>
    simp only [Tx.bind_assoc]
    unfold _secret_encrypt
    split
    · refine enter_ends trivial fun _ _ _ => insertRow_ends trivial fun free => ?_
      refine referTo_ends (fun _ _ _ => trivial) fun held more _ => ?_
      refine started_ends (fun w mem => ?_) (by simp) fun _ _ => untouched_insert free rfl
      rw [List.mem_singleton.mp mem]
      exact covered_insert (more _ (by simp)) fun r m needed => by cases needed.1
    · trivial
  case present =>
    simp only [Tx.bind_assoc]
    unfold _secret_encrypt
    split
    · refine update_ends (fun _ _ _ => trivial) fun _ _ => ?_
      obtain ⟨rfl, totp⟩ : method.user_id = user_id ∧ method.type = "totp" := by simpa using owned
      refine started_ends (fun w mem => ?_) (by simp) fun user there => ?_
      · rw [List.mem_singleton.mp mem]
        exact covered_update (locks_of_mem (by simp)) fun _ _ _ => id
      · exact untouched_setUp here (disabled user there present method here rfl) _ _
    · trivial

/-- A method is enabled with a valid code, and its user is locked against setups. -/
theorem enable_setupEnd {method_id secret code : Text} {method : UserMfaMethod} {clock : Clock}
    {codes : NewCodes} {audit_id : Text} {counter : Int} {written : List (Write Row)}
    {held : Held Lock} (here : fin.row .user_mfa_methods method_id = some method)
    (decrypted : env.decrypt_mfa_secret method.secret_encrypted = some secret)
    (valid : ValidCode env secret code (clock 1) counter)
    (mine : (.row .user_mfa_methods method_id, .noKeyUpdate) ∈ held)
    (owner : (.row .users method.user_id, .keyShare) ∈ held)
    (covered : AllCovered enabledNeeds held written) (modest : ∀ w ∈ written, Modest w) :
    SetupEnd env (.confirm method.user_id code clock codes audit_id)
      (.confirmed ⟨method_id, method.user_id, method.secret_encrypted, counter, codes.map (·.2)⟩) fin
      (⟨.user_mfa_methods, method_id, .update (·.enable counter (clock 0))⟩ :: written) held := by
  refine ⟨?_, fun w mem => ?_, fun key new there enabled => ?_, fun isStart => by cases isStart⟩
  · have first : Lawful enabledNeeds held fin
        (fin.apply ⟨.user_mfa_methods, method_id, .update (·.enable counter (clock 0))⟩) := by
      refine lawful_update here (locks_of_mem mine) fun r m needed => .inr ?_
      obtain ⟨-, rfl, rfl⟩ := needed
      exact locks_of_mem owner
    exact first.trans covered.lawful
  · rcases List.mem_cons.mp mem with rfl | later
    · simp
    · exact (modest w later).1
  · obtain ⟨row, between, _, sameUser, sameSecret⟩ := keeps_rowAfter modest key _ new there enabled
    dsimp only at between
    rw [onRow_same] at between
    split at between
    · rename_i same
      subst same
      obtain rfl : method.enable counter (clock 0) = row := by simpa [here, Change.on] using between
      have owned : method.user_id = new.user_id := sameUser
      have kept : method.secret_encrypted = new.secret_encrypted := sameSecret
      exact .inr ⟨code, clock, codes, audit_id, _, secret, by rw [owned], rfl, owned, kept,
        kept ▸ decrypted, valid⟩
    · exact .inl ⟨row, between, ‹_›, sameUser, sameSecret⟩

theorem confirm_ends (code : Text) (clock : Clock) (codes : NewCodes) (audit_id : Text) :
    Closes env (.confirm user_id code clock codes audit_id)
      ((SetupCall.confirm user_id code clock codes audit_id).program env) fin := by
  refine signedIn_ends (fun _ => trivial) fun _ => ?_
  unfold confirm_totp_setup
  simp only [Tx.bind_eq, Tx.bind_assoc]
  refine findForUpdate_either (fun _ _ => trivial) fun method_id method here owned => ?_
  obtain ⟨rfl, totp⟩ : method.user_id = user_id ∧ method.type = "totp" := by simpa using owned
  dsimp only
  split
  · trivial
  · unfold _secret_decrypt
    simp only [Tx.bind_assoc]
    split
    · rename_i secret decrypted
      refine matching_counter_ends (fun _ => trivial) trivial fun counter valid => ?_
      simp only [Tx.bind_assoc]
      refine update_ends (fun _ _ _ => trivial) fun _ _ => ?_
      refine (replace_recovery_codes_modest env _ codes).ends (fun _ _ _ => trivial)
        fun _ written held₁ kept₁ modest covered => ?_
      refine insertAudit_ends (fun _ _ _ => trivial) (fun _ _ => id) fun held₂ kept₂ actor logged => ?_
      have kept : ∀ l ∈ held₁, l ∈ held₂ := kept₂
      have all := (covered.among kept).concat logged
      obtain ⟨owner, -⟩ := actor _ rfl
      simp only [List.nil_append, List.cons_append]
      refine enable_setupEnd here decrypted valid (kept _ (kept₁ _ (by simp))) owner all fun w mem => ?_
      rcases List.mem_append.mp mem with old | new
      · exact modest w old
      · rw [List.mem_singleton.mp new]
        exact modest_other (by decide) (by decide) _ _
    · trivial

theorem setupCall_ends (env : Environment) (call : SetupCall) :
    Closes env call (call.program env) fin := by
  cases call with
  | start user_id secret nonce method_id clock audit_id =>
      exact start_ends secret nonce method_id clock audit_id
  | confirm user_id code clock codes audit_id => exact confirm_ends code clock codes audit_id
  | disable user_id given clock audit_id => exact disable_ends given clock audit_id

end

/-! ## Runs -/

def setupCalls (env : Environment) (call : Pid → SetupCall) (db : Db) : World SetupDone :=
  .initial db fun pid => (call pid).program env

section

variable (env : Environment) (call : Pid → SetupCall)

abbrev SettingUp (s : World SetupDone) : Prop :=
  Heading Database.apply (fun _ => peers enabledNeeds noNewUsers) (fun pid => setupEnds env (call pid)) s

variable {env call}

theorem SettingUp.step {s : World SetupDone} (h : SettingUp env call s) (e : Event) :
    SettingUp env call (s.step Database.apply e) := by
  refine heading_step_lawful h e (fun _ _ _ post => post.lawful) fun pid done pending _ _ at_ _ => ?_
  intro id gone
  rw [view_row, rowAfter_untouched fun w mem same =>
    absurd same ((h.post_of_done at_).users w mem)]
  exact gone

/-- Every enabled method was enabled from the start, with its secret, or its secret has been
    confirmed. -/
def EnabledConfirmed (env : Environment) (call : Pid → SetupCall) (start : Db) (s : World SetupDone) :
    Prop :=
  ∀ key method, s.db.row .user_mfa_methods key = some method → method.enabledTotp = true →
    (∃ old, start.row .user_mfa_methods key = some old ∧ old.enabledTotp = true ∧
      old.user_id = method.user_id ∧ old.secret_encrypted = method.secret_encrypted) ∨
    ∃ pid done, s.proc pid = .committed done ∧ Accepts env (call pid) done method

theorem SettingUp.enabledConfirmed {s : World SetupDone} (h : SettingUp env call s) (e : Event)
    {start : Db} (confirmed : EnabledConfirmed env call start s) :
    EnabledConfirmed env call start (s.step Database.apply e) := by
  have before : ∀ key method, s.db.row .user_mfa_methods key = some method → method.enabledTotp = true →
      (∃ old, start.row .user_mfa_methods key = some old ∧ old.enabledTotp = true ∧
        old.user_id = method.user_id ∧ old.secret_encrypted = method.secret_encrypted) ∨
      ∃ pid done, (s.step Database.apply e).proc pid = .committed done ∧
        Accepts env (call pid) done method := by
    intro key method here enabled
    refine (confirmed key method here enabled).imp_right fun ⟨pid, done, ended, accepts⟩ => ?_
    exact ⟨pid, done, committed_stays ended, accepts⟩
  intro key method here enabled
  rcases s.step_cases Database.apply e with ⟨pid, done, pending, -, at_, stepped⟩ | ⟨same, -⟩
  · have ended : (s.step Database.apply e).proc pid = .committed done := by
      simp [stepped, State.finish]
    rw [stepped, view_row] at here
    rcases (h.post_of_done at_).enabled key method here enabled with
      ⟨old, there, enabled', owner, secret⟩ | accepts
    · rcases before key old there enabled' with ⟨first, was⟩ | ⟨pid', done', ended', accepts⟩
      · exact .inl ⟨first, was.1, was.2.1, was.2.2.1.trans owner, was.2.2.2.trans secret⟩
      · refine .inr ⟨pid', done', ended', ?_⟩
        simpa only [Accepts, owner, secret] using accepts
    · exact .inr ⟨pid, done, ended, accepts⟩
  · rw [same] at here
    exact before key method here enabled

/-- A step of a setup that starts leaves every enabled method as it is. -/
theorem SettingUp.spares {s : World SetupDone} (h : SettingUp env call s) {pid : Pid}
    (starts : (call pid).isStart = true) {key : Text} {method : UserMfaMethod}
    (here : s.db.row .user_mfa_methods key = some method) (enabled : method.enabledTotp = true) :
    (s.step Database.apply (.step pid)).db.row .user_mfa_methods key = some method := by
  rcases s.step_cases Database.apply (.step pid) with ⟨q, done, pending, own, at_, stepped⟩ | ⟨same, -⟩
  · obtain rfl : pid = q := by simpa using own
    rw [stepped, view_row]
    exact (h.post_of_done at_).spared starts key method here enabled
  · rw [same]
    exact here

theorem setupCalls_settingUp (db : Db) : SettingUp env call (setupCalls env call db) :=
  .initial db _ fun pid _ _ => setupCall_ends env (call pid)

end

theorem enabled_secret_is_confirmed (env : Environment) (call : Pid → SetupCall) (db : Db)
    (events : List Event) :
    let s := run (State.step Database.apply) (setupCalls env call db) events
    EnabledConfirmed env call db s ∧
      ∀ pid key method, (call pid).isStart = true → s.db.row .user_mfa_methods key = some method →
        method.enabledTotp = true →
        (s.step Database.apply (.step pid)).db.row .user_mfa_methods key = some method := by
  have reached := run_invariant
    (I := fun s : World SetupDone => SettingUp env call s ∧ EnabledConfirmed env call db s)
    (fun _ e h => ⟨h.1.step e, h.1.enabledConfirmed e h.2⟩)
    ⟨setupCalls_settingUp db, fun key method here enabled => .inl ⟨method, here, enabled, rfl, rfl⟩⟩
    events
  exact ⟨reached.2, fun pid key method starts here enabled => reached.1.spares starts here enabled⟩

/-! One setup is confirmed while another one waits for the user's row. -/

def setupRace : Pid → SetupCall
  | 0 => .start (text "a") (text "123456") [] (text "m") (fun _ => 0) (text "l0")
  | 1 => .confirm (text "a") (text "123456") (fun _ => 60) [(text "r", text "code")] (text "l1")
  | _ => .start (text "a") (text "654321") [] (text "n") (fun _ => 90) (text "l2")

def confirmedFirst : List Event :=
  List.replicate 17 (Event.step 0) ++ List.replicate 13 (Event.step 1) ++
    List.replicate 4 (Event.step 2) ++ List.replicate 6 (Event.step 1) ++ List.replicate 4 (Event.step 2)

def afterSetup : World SetupDone :=
  run (State.step Database.apply) (setupCalls plainEnvironment setupRace twoSuperusers) confirmedFirst

set_option maxRecDepth 10000 in
theorem enabled_secret_is_confirmed_here :
    afterSetup.proc 2 = .raised (.error mfa_already_enabled) ∧
      (∃ method, afterSetup.db.row .user_mfa_methods (text "m") = some method ∧
        method.enabledTotp = true) ∧
      EnabledConfirmed plainEnvironment setupRace twoSuperusers afterSetup :=
  ⟨rfl, ⟨_, rfl, rfl⟩,
    (enabled_secret_is_confirmed plainEnvironment setupRace twoSuperusers confirmedFirst).1⟩

end PackageRegistry.Accounts
