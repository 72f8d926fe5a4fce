import PackageRegistry.Accounts.PasskeyRules
import PackageRegistry.Lib.Evolution

/-! # Calls that use up a second factor

The calls that create a login challenge, complete it, or ask for a factor again. Two
locks keep them apart: the method is locked while its code is judged, and a challenge is
opened only under a shared lock on its user, whom the next challenge locks.
-/

namespace PackageRegistry.Accounts

open Transactions Relational
open PackageRegistry.Auth (UserId Time AuthError)

inductive FactorCall where
  | createChallenge (user_id : UserId) (primary_method : String) (redirect_path : Option Text)
      (challenge_id token : Text) (clock : Clock)
  | verifyLogin (token : Text) (code recovery_code : Option Text) (clock : Clock) (audit_id : Text)
  | verifyPasskey (challenge_token ceremony_token : Text) (payload : Json) (clock : Clock)
      (audit : AuditIds)
  | confirm (user_id : UserId) (code : Text) (clock : Clock) (codes : NewCodes) (audit_id : Text)
  | sensitive (user_id : UserId) (given : Credentials) (clock : Clock)
  | regenerate (user_id : UserId) (given : Credentials) (clock : Clock) (codes : NewCodes)
      (audit_id : Text)
  | disable (user_id : UserId) (given : Credentials) (clock : Clock) (audit_id : Text)

inductive FactorDone where
  | created
  | login (result : LoginVerified)
  | passkey (verified : PasskeyVerified)
  | refused (error : AuthError)
  | confirmed (accepted : TotpConfirmed)
  | shown (factor : Shown)

def FactorCall.program (env : Environment) : FactorCall → Program FactorDone
  | .createChallenge user_id primary_method redirect_path challenge_id token clock => do
      create_login_challenge env user_id primary_method redirect_path challenge_id token clock
      pure .created
  | .verifyLogin token code recovery_code clock audit_id => do
      let result ← verify_login_challenge env token code recovery_code clock audit_id
      pure (.login result)
  | .verifyPasskey challenge_token ceremony_token payload clock audit => do
      match ← verify_mfa env challenge_token ceremony_token payload clock audit with
      | .error error => pure (.refused error)
      | .ok verified => pure (.passkey verified)
  | .confirm user_id code clock codes audit_id => signedIn user_id fun _ => do
      let accepted ← confirm_totp_setup env user_id code clock codes audit_id
      pure (.confirmed accepted)
  | .sensitive user_id given clock => signedIn user_id fun user => do
      let shown ← verify_sensitive_action env user_id user given clock
      pure (.shown shown)
  | .regenerate user_id given clock codes audit_id => signedIn user_id fun user => do
      let shown ← regenerate_recovery_codes env user_id user given clock codes audit_id
      pure (.shown shown)
  | .disable user_id given clock audit_id => signedIn user_id fun user => do
      let shown ← disable_mfa env user_id user given clock audit_id
      pure (.shown shown)

/-- The login challenge that has been completed -/
def FactorDone.completed : FactorDone → Option Text
  | .login (.success challenge_id ..) => some challenge_id
  | .passkey verified => some verified.challenge_id
  | _ => none

/-- The login challenge on which a code was wrong -/
def FactorDone.failed : FactorDone → Option Text
  | .login (.failed challenge_id _) => some challenge_id
  | _ => none

/-- The method with which a factor was accepted, and what was used up -/
def FactorDone.consumed : FactorDone → Option (Text × Consumed)
  | .login (.success _ _ method_id used _) => some (method_id, used)
  | .confirmed accepted => some (accepted.method_id, .totp accepted.counter)
  | .shown factor => some (factor.method_id, factor.used)
  | _ => none

/-- The rows that the call adds, as far as they matter here -/
def FactorCall.adds : FactorCall → TableName → Text → Prop
  | .createChallenge _ _ _ challenge_id _ _, .auth_mfa_challenges, key => key = challenge_id
  | .confirm _ _ _ codes _, .user_mfa_recovery_codes, key => key ∈ codes.map (·.1)
  | .regenerate _ _ _ codes _, .user_mfa_recovery_codes, key => key ∈ codes.map (·.1)
  | _, _, _ => False

/-! ## How the rows evolve -/

def AuthMfaChallenge.openLogin (challenge : AuthMfaChallenge) : Bool :=
  challenge.purpose == "login" && challenge.isOpen

structure AuthMfaChallenge.Grows (old new : AuthMfaChallenge) : Prop where
  user_id : new.user_id = old.user_id
  still_open : new.openLogin = true → old.openLogin = true
  used : old.used_at.isSome = true → new.used_at.isSome = true
  attempts : old.attempt_count ≤ new.attempt_count

structure UserMfaMethod.Grows (old new : UserMfaMethod) : Prop where
  user_id : new.user_id = old.user_id
  secret : new.secret_encrypted = old.secret_encrypted
  enabled : old.is_enabled = true → new.is_enabled = true
  counter : old.is_enabled = true → ∀ last, old.last_used_counter = some last →
    ∃ last', new.last_used_counter = some last' ∧ last ≤ last'

def UserMfaRecoveryCode.StaysUsed (old new : UserMfaRecoveryCode) : Prop :=
  old.used_at.isSome = true → new.used_at.isSome = true

theorem AuthMfaChallenge.Grows.refl (row : AuthMfaChallenge) : row.Grows row :=
  ⟨rfl, id, id, Nat.le_refl _⟩

theorem AuthMfaChallenge.Grows.trans {a b c : AuthMfaChallenge} (first : a.Grows b)
    (second : b.Grows c) : a.Grows c :=
  ⟨second.user_id.trans first.user_id, fun still => first.still_open (second.still_open still),
    fun used => second.used (first.used used), Nat.le_trans first.attempts second.attempts⟩

theorem UserMfaMethod.Grows.refl (row : UserMfaMethod) : row.Grows row :=
  ⟨rfl, rfl, id, fun _ last same => ⟨last, same, Int.le_refl _⟩⟩

theorem UserMfaMethod.Grows.trans {a b c : UserMfaMethod} (first : a.Grows b) (second : b.Grows c) :
    a.Grows c := by
  refine ⟨second.user_id.trans first.user_id, second.secret.trans first.secret,
    fun enabled => second.enabled (first.enabled enabled), fun enabled last same => ?_⟩
  obtain ⟨last', same', le⟩ := first.counter enabled last same
  obtain ⟨last'', same'', le'⟩ := second.counter (first.enabled enabled) last' same'
  exact ⟨last'', same'', Int.le_trans le le'⟩

def factorRel (adds : TableName → Text → Prop) :
    (T : TableName) → Text → Option (Row T) → Option (Row T) → Prop
  | .auth_mfa_challenges, key, old, new => Persists AuthMfaChallenge.Grows old new ∧
      (adds .auth_mfa_challenges key ∨ (old = none → new = none))
  | .user_mfa_methods, _, old, new => Stems UserMfaMethod.Grows old new
  | .user_mfa_recovery_codes, key, old, new => adds .user_mfa_recovery_codes key ∨
      Stems UserMfaRecoveryCode.StaysUsed old new
  | .users, _, old, new => old = none → new = none
  | _, _, _, _ => True

/-- Challenges grow, methods and codes are at most there as before, and no user appears; but
    for the rows that are added. -/
def factors (adds : TableName → Text → Prop) : Evolution Row where
  rel := factorRel adds
  refl T key row := by
    cases T with
    | auth_mfa_challenges => exact ⟨.refl AuthMfaChallenge.Grows.refl row, .inr id⟩
    | user_mfa_methods => exact .refl UserMfaMethod.Grows.refl row
    | user_mfa_recovery_codes => exact .inr (.refl (fun _ => id) row)
    | users => exact id
    | _ => trivial
  trans {T _ _ _ _} first second := by
    cases T with
    | auth_mfa_challenges =>
        refine ⟨Persists.trans (by exact fun _ _ _ => AuthMfaChallenge.Grows.trans) first.1 second.1, ?_⟩
        rcases first.2 with added | gone
        · exact .inl added
        · exact second.2.imp_right fun gone' free => gone' (gone free)
    | user_mfa_methods =>
        exact Stems.trans (by exact fun _ _ _ => UserMfaMethod.Grows.trans) first second
    | user_mfa_recovery_codes =>
        rcases first with added | stems
        · exact .inl added
        · exact second.imp_right (Stems.trans (fun _ _ _ used used' here => used' (used here)) stems)
    | users => exact fun gone => second (first gone)
    | _ => trivial

/-- A challenge that is open needs a shared lock on its user. -/
def openNeeds : Needed
  | .auth_mfa_challenges, row, r, m =>
      row.openLogin = true ∧ r = .row .users row.user_id ∧ m = .keyShare
  | _, _, _, _ => False

theorem openNeeds_free : PasskeysFree openNeeds :=
  ⟨fun _ _ _ => id, fun _ _ _ => id, fun _ _ _ => id, fun _ _ _ => id⟩

section

variable {adds : TableName → Text → Prop} {key : Text} {w : Write Row} {extra : Restraint Db}

theorem factors_challenge {g : AuthMfaChallenge → AuthMfaChallenge}
    (grows : ∀ row : AuthMfaChallenge, row.Grows (g row)) :
    (factors adds).Keeps ⟨.auth_mfa_challenges, key, .update g⟩ :=
  Evolution.keeps_update fun row => ⟨persists_some (grows row), .inr fun there => by cases there⟩

theorem factors_user {g : User → User} : (factors adds).Keeps ⟨.users, key, .update g⟩ :=
  Evolution.keeps_update fun _ there => by cases there

theorem factors_audit {entry : AuthAuditLog} :
    (factors adds).Keeps ⟨.auth_audit_logs, key, .insert entry⟩ := fun _ => trivial

theorem factors_attempt (h : AttemptWrite key w) : (factors adds).Keeps w := by
  rcases h with ⟨attempts, rfl⟩ | ⟨id, entry, rfl⟩
  · exact fun _ => trivial
  · exact factors_audit

theorem factors_signed {credential_row : Text} {user_id : UserId} {verification : Verification}
    {clock : Clock} :
    ∀ w ∈ signedWrites key credential_row user_id verification clock, (factors adds).Keeps w := by
  intro w mem
  simp only [signedWrites, List.mem_cons, List.not_mem_nil, or_false] at mem
  rcases mem with rfl | rfl | rfl
  · exact fun _ => trivial
  · exact fun _ => trivial
  · exact factors_user

theorem open_needs_same {g : AuthMfaChallenge → AuthMfaChallenge}
    (grows : ∀ row : AuthMfaChallenge, row.Grows (g row)) (row : AuthMfaChallenge) (r : Lock)
    (m : LockMode) (needed : openNeeds .auth_mfa_challenges (g row) r m) :
    openNeeds .auth_mfa_challenges row r m :=
  ⟨(grows row).still_open needed.1, by rw [← (grows row).user_id]; exact needed.2.1, needed.2.2⟩

theorem adds_challenge {g : AuthMfaChallenge → AuthMfaChallenge}
    (grows : ∀ row : AuthMfaChallenge, row.Grows (g row)) :
    Adds openNeeds extra (factors adds).Keeps (update .auth_mfa_challenges key g) :=
  adds_update (open_needs_same grows) (factors_challenge grows)

theorem factors_report {entry : AuthAuditLog} :
    Adds openNeeds extra (factors adds).Keeps (insertAudit key entry) :=
  adds_insertAudit (fun _ _ => id) factors_audit

theorem factors_used (now : Time) (row : AuthMfaChallenge) : row.Grows { row with used_at := some now } := by
  refine ⟨rfl, fun still => ?_, fun _ => rfl, Nat.le_refl _⟩
  simp [AuthMfaChallenge.openLogin, AuthMfaChallenge.isOpen] at still

theorem factors_invalidated (now : Time) (row : AuthMfaChallenge) : row.Grows (row.invalidate now) := by
  refine ⟨rfl, fun still => ?_, id, Nat.le_refl _⟩
  simp [AuthMfaChallenge.openLogin, AuthMfaChallenge.isOpen, AuthMfaChallenge.invalidate] at still

end

/-! ## What a call has done when it commits -/

/-- What the acceptance of a factor says about its rows: the time step is later than the
    last one, and the recovery code was unused. -/
def Accepted (adds : TableName → Text → Prop) (fin : Db) (pending : List (Write Row))
    (method_id : Text) : Consumed → Prop
  | .totp counter => ∃ method, fin.row .user_mfa_methods method_id = some method ∧
      (method.is_enabled = true → ∀ last, method.last_used_counter = some last → last < counter) ∧
      ∀ method', rowAfter pending .user_mfa_methods method_id (fin.row .user_mfa_methods method_id) =
        some method' → method'.is_enabled = true ∧
          ∃ last, method'.last_used_counter = some last ∧ counter ≤ last
  | .recovery code_id => ∃ code, fin.row .user_mfa_recovery_codes code_id = some code ∧
      code.used_at = none ∧ (adds .user_mfa_recovery_codes code_id ∨
        ∀ code', rowAfter pending .user_mfa_recovery_codes code_id
          (fin.row .user_mfa_recovery_codes code_id) = some code' → code'.used_at.isSome = true)

def OpenAfter (fin : Db) (pending : List (Write Row)) (key : Text) (user_id : UserId) : Prop :=
  ∃ challenge, rowAfter pending .auth_mfa_challenges key (fin.row .auth_mfa_challenges key) =
    some challenge ∧ challenge.openLogin = true ∧ challenge.user_id = user_id

/-- What a call that commits has done to challenges, methods and codes -/
structure FactorEnd (env : Environment) (call : FactorCall) (done : FactorDone) (fin : Db)
    (pending : List (Write Row)) (held : Held Lock) : Prop where
  covered : AllCovered openNeeds held pending
  far : (factors call.adds).Far fin pending
  alone : ∀ key, call.adds .auth_mfa_challenges key → ∀ user_id, OpenAfter fin pending key user_id →
    ∀ key', OpenAfter fin pending key' user_id → key' = key
  completes : ∀ id, done.completed = some id →
    (∃ challenge, fin.row .auth_mfa_challenges id = some challenge ∧ challenge.used_at = none) ∧
    ∃ challenge, rowAfter pending .auth_mfa_challenges id (fin.row .auth_mfa_challenges id) =
      some challenge ∧ challenge.used_at.isSome = true
  fails : ∀ id, done.failed = some id →
    ∃ challenge challenge', fin.row .auth_mfa_challenges id = some challenge ∧
      challenge.attempt_count < env.mfa_max_attempts ∧
      rowAfter pending .auth_mfa_challenges id (fin.row .auth_mfa_challenges id) = some challenge' ∧
      challenge.attempt_count < challenge'.attempt_count
  consumes : ∀ method_id used, done.consumed = some (method_id, used) →
    Accepted call.adds fin pending method_id used

def factorEnds (env : Environment) (call : FactorCall) (_ : List FactorDone) : Ending FactorDone
  | .ok done, fin, pending, held => FactorEnd env call done fin pending held
  | .error _, _, _, _ => True

abbrev Consumes (env : Environment) (call : FactorCall) (t : Program FactorDone) (fin : Db)
    (pending : List (Write Row)) (held : Held Lock) : Prop :=
  Closing openNeeds noNewUsers (factorEnds env call []) t fin pending held

section

variable {env : Environment} {call : FactorCall} {done : FactorDone} {fin : Db}
  {pending written : List (Write Row)} {held held' : Held Lock} {adds : TableName → Text → Prop}

theorem Accepted.append {method_id : Text} {used : Consumed} (h : Accepted adds fin pending method_id used)
    (keeps : ∀ w ∈ written, (factors adds).Keeps w) :
    Accepted adds fin (pending ++ written) method_id used := by
  have rows := fun T key => Evolution.rowAfter_keeps keeps T key (rowAfter pending T key (fin.row T key))
  cases used with
  | totp counter =>
      obtain ⟨method, here, later, after⟩ := h
      refine ⟨method, here, later, fun method'' there => ?_⟩
      rw [rowAfter_append] at there
      obtain ⟨method', between, grows⟩ := rows .user_mfa_methods method_id method'' there
      obtain ⟨enabled, last, same, le⟩ := after method' between
      obtain ⟨last', same', le'⟩ := grows.counter enabled last same
      exact ⟨grows.enabled enabled, last', same', Int.le_trans le le'⟩
  | recovery code_id =>
      obtain ⟨code, here, unused, after⟩ := h
      refine ⟨code, here, unused, ?_⟩
      rcases rows .user_mfa_recovery_codes code_id with added | stems
      · exact .inl added
      · refine after.imp_right fun used code'' there => ?_
        rw [rowAfter_append] at there
        obtain ⟨code', between, stays⟩ := stems code'' there
        exact stays (used code' between)

/-- A challenge that is added is the last write of its call. -/
def FactorCall.addsNoChallenge (call : FactorCall) : Prop := ∀ key, ¬call.adds .auth_mfa_challenges key

theorem FactorEnd.append (h : FactorEnd env call done fin pending held) (none_added : call.addsNoChallenge)
    (more : ∀ l ∈ held, l ∈ held') (keeps : ∀ w ∈ written, (factors call.adds).Keeps w)
    (covered : AllCovered openNeeds held' written) :
    FactorEnd env call done fin (pending ++ written) held' := by
  have rows := fun key => (Evolution.rowAfter_keeps keeps .auth_mfa_challenges key
    (rowAfter pending .auth_mfa_challenges key (fin.row .auth_mfa_challenges key))).1
  refine ⟨(h.covered.among more).append covered, h.far.append keeps,
    fun key added => (none_added key added).elim, fun id completed => ?_, fun id failed => ?_,
    fun method_id used consumed => (h.consumes method_id used consumed).append keeps⟩
  · obtain ⟨before, challenge, there, used⟩ := h.completes id completed
    obtain ⟨challenge', after, grows⟩ := rows id challenge there
    exact ⟨before, challenge', (rowAfter_append ..).trans after, grows.used used⟩
  · obtain ⟨challenge, challenge', here, below, there, counted⟩ := h.fails id failed
    obtain ⟨challenge'', after, grows⟩ := rows id challenge' there
    exact ⟨challenge, challenge'', here, below, (rowAfter_append ..).trans after,
      Nat.lt_of_lt_of_le counted grows.attempts⟩

/-- A statement after it is settled what the call does -/
theorem step_ends {t : Program Unit} {f : Unit → Program FactorDone}
    (h : FactorEnd env call done fin pending held) (none_added : call.addsNoChallenge)
    (quietly : Adds openNeeds noNewUsers (factors call.adds).Keeps t)
    (rest : ∀ pending held, FactorEnd env call done fin pending held →
      Consumes env call (f ()) fin pending held) :
    Consumes env call (t.bind f) fin pending held := by
  refine quietly.ends (fun _ _ _ => trivial) fun _ written held' more keeps covered => ?_
  exact rest _ _ (h.append none_added more keeps covered)

/-- A call that completes nothing, counts nothing and accepts nothing -/
theorem plain_end (covered : AllCovered openNeeds held pending) (far : (factors call.adds).Far fin pending)
    (none_added : call.addsNoChallenge) (completes : done.completed = none) (fails : done.failed = none)
    (consumes : done.consumed = none) : FactorEnd env call done fin pending held := by
  refine ⟨covered, far, fun key added => (none_added key added).elim, fun id completed => ?_,
    fun id failed => ?_, fun method_id used consumed => ?_⟩
  · rw [completes] at completed
    cases completed
  · rw [fails] at failed
    cases failed
  · rw [consumes] at consumed
    cases consumed

/-! ### Accepting a factor -/

/-- A factor of an enabled method is used up, or the code was wrong and nothing is written. -/
theorem factor_ends {method_id : Text} {method : UserMfaMethod} {code recovery_code : Option Text}
    {clock : Clock} {f : Option Consumed → Program FactorDone}
    (here : fin.row .user_mfa_methods method_id = some method)
    (enabled : method.is_enabled = true)
    (wrong : ∀ held', (∀ l ∈ held, l ∈ held') → Consumes env call (f none) fin [] held')
    (right : ∀ used written held', (∀ l ∈ held, l ∈ held') → AllCovered openNeeds held' written →
      (factors call.adds).Far fin written → Accepted call.adds fin written method_id used →
      Consumes env call (f (some used)) fin written held') :
    Consumes env call ((_consume_factor env method_id method code recovery_code clock).bind f) fin []
      held := by
  refine consume_factor_ends (fun _ _ _ => trivial) wrong (fun counter later => ?_)
    fun code_id row held' kept there unused code_locked method_locked => ?_
  · refine right (.totp counter) _ _ (fun l mem => List.mem_cons_of_mem _ mem) (fun w mem => ?_) ?_
      ⟨method, here, fun _ => later, ?_⟩
    · rw [List.mem_singleton.mp mem]
      exact covered_update (locks_of_mem (by simp)) fun _ _ _ => id
    · refine Evolution.far_nil.update here (stems_some ⟨rfl, rfl, fun _ => enabled, fun _ last same => ?_⟩)
      exact ⟨counter, rfl, Int.le_of_lt (later last same)⟩
    · intro method' there
      obtain rfl : method.use counter (clock 1) = method' := by simpa [here, Change.on] using there
      exact ⟨enabled, counter, rfl, Int.le_refl _⟩
  · have used : (factors call.adds).Keeps
        ⟨.user_mfa_recovery_codes, code_id, .update ({ · with used_at := some (clock 1) })⟩ :=
      Evolution.keeps_update fun row => .inr (stems_some fun _ => rfl)
    have touched : (factors call.adds).Keeps
        ⟨.user_mfa_methods, method_id, .update ({ · with last_used_at := some (clock 1) })⟩ :=
      Evolution.keeps_update fun row => stems_some ⟨rfl, rfl, id, fun _ last same => ⟨last, same, Int.le_refl _⟩⟩
    refine right (.recovery code_id) _ _ kept (fun w mem => ?_)
      (Evolution.far_of_keeps fun w mem => ?_) ⟨row, there, unused, .inr fun code' after => ?_⟩
    · rcases List.mem_pair.mp mem with rfl | rfl
      · exact covered_update (locks_of_mem code_locked) fun _ _ _ => id
      · exact covered_update (locks_of_mem method_locked) fun _ _ _ => id
    · rcases List.mem_pair.mp mem with rfl | rfl
      · exact used
      · exact touched
    · rw [rowAfter_nil] at there
      have final : { row with used_at := some (clock 1) } = code' := by
        simpa [there, Change.on] using after
      rw [← final]
      rfl

/-- A challenge that was unused is used up. -/
theorem completed_end {challenge_id : Text} {challenge row : AuthMfaChallenge} {now : Time}
    (here : fin.row .auth_mfa_challenges challenge_id = some challenge) (unused : challenge.used_at = none)
    (covered : AllCovered openNeeds held written) (far : (factors call.adds).Far fin written)
    (none_added : call.addsNoChallenge)
    (between : rowAfter written .auth_mfa_challenges challenge_id
      (fin.row .auth_mfa_challenges challenge_id) = some row)
    (completes : done.completed = some challenge_id) (fails : done.failed = none)
    (consumes : ∀ method_id used, done.consumed = some (method_id, used) →
      Accepted call.adds fin written method_id used) :
    FactorEnd env call done fin
      (written ++ [⟨.auth_mfa_challenges, challenge_id, .update ({ · with used_at := some now })⟩])
      ((.row .auth_mfa_challenges challenge_id, .noKeyUpdate) :: held) := by
  have keeps : ∀ w ∈ [(⟨.auth_mfa_challenges, challenge_id,
      .update ({ · with used_at := some now })⟩ : Write Row)], (factors call.adds).Keeps w := by
    intro w mem
    rw [List.mem_singleton.mp mem]
    exact factors_challenge (factors_used now)
  refine ⟨?_, far.append keeps, fun key added => (none_added key added).elim, fun id completed => ?_,
    fun id failed => ?_, fun method_id used consumed => (consumes method_id used consumed).append keeps⟩
  · refine (covered.among fun l mem => List.mem_cons_of_mem _ mem).concat ?_
    exact covered_update (locks_of_mem (by simp)) (open_needs_same (factors_used now))
  · obtain rfl := Option.some.inj (completes.symm.trans completed)
    refine ⟨⟨challenge, here, unused⟩, { row with used_at := some now }, ?_, rfl⟩
    rw [rowAfter_append, between]
    simp [Change.on]
  · rw [fails] at failed
    cases failed

/-! ### The calls -/

/-- A new challenge is the only one of its user that is open. -/
theorem created_end {challenge_id : Text} {challenge : AuthMfaChallenge}
    (added : ∀ key, call.adds .auth_mfa_challenges key ↔ key = challenge_id)
    (keeps : ∀ w ∈ written, (factors call.adds).Keeps w)
    (closed : ∀ key, ¬OpenAfter fin written key challenge.user_id)
    (free : rowAfter written .auth_mfa_challenges challenge_id (fin.row .auth_mfa_challenges challenge_id) =
      none)
    (covered : AllCovered openNeeds held
      (written ++ [⟨.auth_mfa_challenges, challenge_id, .insert challenge⟩])) :
    FactorEnd env call .created fin
      (written ++ [⟨.auth_mfa_challenges, challenge_id, .insert challenge⟩]) held := by
  have after : ∀ key, rowAfter (written ++ [⟨.auth_mfa_challenges, challenge_id, .insert challenge⟩])
      .auth_mfa_challenges key (fin.row .auth_mfa_challenges key) =
        if challenge_id = key then some challenge
        else rowAfter written .auth_mfa_challenges key (fin.row .auth_mfa_challenges key) := by
    intro key
    rw [rowAfter_append, rowAfter_cons, rowAfter_nil, onRow_same]
    rfl
  refine ⟨covered, (Evolution.far_of_keeps keeps).insert free ?_, fun key new user_id here key' there => ?_,
    fun _ completed => (by cases completed), fun _ failed => (by cases failed),
    fun _ _ consumed => (by cases consumed)⟩
  · exact ⟨persists_none, .inl ((added challenge_id).mpr rfl)⟩
  · obtain rfl := (added key).mp new
    obtain ⟨row, here, -, mine⟩ := here
    rw [after, if_pos rfl] at here
    obtain rfl := Option.some.inj here
    obtain ⟨row', there, opened, same⟩ := there
    rw [after] at there
    split at there
    · exact Eq.symm ‹_›
    · exact absurd ⟨row', there, opened, same.trans mine.symm⟩ (closed key')

theorem createChallenge_ends {user_id : UserId} {primary_method : String} {redirect_path : Option Text}
    {challenge_id token : Text} {clock : Clock} :
    Consumes env (.createChallenge user_id primary_method redirect_path challenge_id token clock)
      ((FactorCall.createChallenge user_id primary_method redirect_path challenge_id token clock).program
        env) fin [] [] := by
  unfold FactorCall.program create_login_challenge
  simp only [Tx.bind_eq, Tx.bind_assoc]
  refine lock_ends fun _ held _ locked => ?_
  refine updateWhere_ends (∃ user, fin.row .users user_id = some user) ?sees
    fun written held₁ _ swept => ?rest
  case sees =>
    rintro ⟨user, there⟩ db allowed key row here matches_
    simp only [Bool.and_eq_true, beq_iff_eq] at matches_
    obtain ⟨⟨mine, login⟩, is_open⟩ := matches_
    have opened : row.openLogin = true := by simp [AuthMfaChallenge.openLogin, login, is_open]
    rcases locked with mem | ⟨db', allowed', gone⟩
    · -- nobody opens a challenge of a user who is locked
      obtain ⟨old, before, was_open, owner, -⟩ := allowed.1.needed _ _ .keyShare mem rfl
        .auth_mfa_challenges key row here ⟨opened, by rw [mine], rfl⟩
      have same : user_id = old.user_id := by simpa using owner
      have was : old.purpose = "login" ∧ old.isOpen = true := by
        simpa [AuthMfaChallenge.openLogin] using was_open
      exact ⟨old, before, by simp [same, was]⟩
    · have none_there := allowed'.2 user_id gone
      rw [there] at none_there
      cases none_there
  case rest =>
    refine enter_ends trivial fun _ _ _ => insertRow_ends trivial fun free => ?_
    refine referTo_ends (fun _ _ _ => trivial) fun held₂ more actor => ?_
    obtain ⟨owner, user, there⟩ := actor user_id rfl
    simp only [List.nil_append] at free there ⊢
    have kinds : ∀ w ∈ written, ∃ key,
        w = ⟨.auth_mfa_challenges, key, .update (·.invalidate (clock 0))⟩ := fun w mem =>
      (swept.writes w mem).imp fun _ => And.left
    have loaded : ∃ user, fin.row .users user_id = some user := by
      refine ⟨user, (rowAfter_untouched (fun w mem same => ?_) _).symm.trans there⟩
      rcases List.mem_append.mp mem with old | new
      · obtain ⟨key, rfl⟩ := kinds w old
        cases same
      · rw [List.mem_singleton.mp new] at same
        cases same
    refine created_end (fun key => Iff.rfl) (fun w mem => ?_) (fun key => ?_) free ?_
    · obtain ⟨key, rfl⟩ := kinds w mem
      exact factors_challenge (factors_invalidated (clock 0))
    · rintro ⟨row, after, opened, mine⟩
      have settled := swept.none_left loaded (fun old row' same => ?_) after
      · have login : row.purpose = "login" ∧ row.isOpen = true := by
          simpa [AuthMfaChallenge.openLogin] using opened
        simp [mine, login] at settled
      · obtain rfl := Option.some.inj same
        simp [AuthMfaChallenge.isOpen, AuthMfaChallenge.invalidate]
    · refine AllCovered.concat ((swept.covered_update ?_).among fun l mem => more l (by simp [mem])) ?_
      · exact open_needs_same (factors_invalidated (clock 0))
      · refine covered_insert (more _ (by simp)) fun r m needed => ?_
        obtain ⟨-, rfl, rfl⟩ := needed
        exact locks_of_mem owner

theorem verify_sensitive_action_ends {user_id : UserId} {user : User} {given : Credentials}
    {clock : Clock} {f : Shown → Program FactorDone}
    (rest : ∀ shown written held', AllCovered openNeeds held' written →
      (factors call.adds).Far fin written → Accepted call.adds fin written shown.method_id shown.used →
      Consumes env call (f shown) fin written held') :
    Consumes env call ((verify_sensitive_action env user_id user given clock).bind f) fin [] held := by
  unfold verify_sensitive_action lockedMethod
  simp only [Tx.bind_eq, Tx.bind_assoc]
  refine findForUpdate_either (fun _ _ => trivial) fun method_id method here matches_ => ?_
  have enabled : method.is_enabled = true := by
    simp only [Bool.and_eq_true] at matches_
    exact matches_.2
  dsimp only
  split
  · trivial
  · rw [Tx.bind_assoc]
    refine factor_ends here enabled (fun _ _ => trivial) fun used written held' _ covered far accepted => ?_
    exact rest ⟨method_id, method, used⟩ written held' covered far accepted

/-- A factor has been shown again, and nothing else counts. -/
theorem shown_end {shown : Shown} (none_added : call.addsNoChallenge)
    (covered : AllCovered openNeeds held pending) (far : (factors call.adds).Far fin pending)
    (accepted : Accepted call.adds fin pending shown.method_id shown.used) :
    FactorEnd env call (.shown shown) fin pending held := by
  refine ⟨covered, far, fun key added => (none_added key added).elim,
    fun _ completed => (by cases completed), fun _ failed => (by cases failed), ?_⟩
  rintro _ _ ⟨⟩
  exact accepted

theorem sensitive_ends {user_id : UserId} {given : Credentials} {clock : Clock} :
    Consumes env (.sensitive user_id given clock)
      ((FactorCall.sensitive user_id given clock).program env) fin [] [] := by
  refine signedIn_ends (fun _ => trivial) fun user => ?_
  refine verify_sensitive_action_ends fun shown written held covered far accepted => ?_
  exact shown_end (fun _ => id) covered far accepted

theorem replace_recovery_codes_ends {user_id : UserId} {codes : NewCodes}
    (added : ∀ key ∈ codes.map (·.1), adds .user_mfa_recovery_codes key) :
    Adds openNeeds noNewUsers (factors adds).Keeps (_replace_recovery_codes env user_id codes) := by
  refine .bind (adds_deleteAll fun _ _ => .inr stems_none) fun _ => ?_
  induction codes with
  | nil => exact adds_pure _
  | cons code rest ih =>
      refine .bind adds_unique fun _ => .bind ?_ fun _ => .bind adds_referTo fun _ => ?_
      · exact adds_insert (fun _ _ => id) fun _ => .inl (added _ (by simp))
      · exact ih fun key mem => added key (by simp [mem])

theorem regenerate_ends {user_id : UserId} {given : Credentials} {clock : Clock} {codes : NewCodes}
    {audit_id : Text} :
    Consumes env (.regenerate user_id given clock codes audit_id)
      ((FactorCall.regenerate user_id given clock codes audit_id).program env) fin [] [] := by
  refine signedIn_ends (fun _ => trivial) fun user => ?_
  unfold regenerate_recovery_codes
  simp only [Tx.bind_eq, Tx.bind_assoc]
  refine verify_sensitive_action_ends fun shown written held covered far accepted => ?_
  have settled : FactorEnd env (.regenerate user_id given clock codes audit_id) (.shown shown) fin written
      held := shown_end (fun _ => id) covered far accepted
  refine step_ends settled (fun _ => id) ?_ fun _ _ settled => ?_
  · exact replace_recovery_codes_ends fun _ mem => mem
  · exact step_ends settled (fun _ => id) factors_report fun _ _ settled => settled

theorem disable_mfa_ends {user_id : UserId} {given : Credentials} {clock : Clock} {audit_id : Text} :
    Consumes env (.disable user_id given clock audit_id)
      ((FactorCall.disable user_id given clock audit_id).program env) fin [] [] := by
  refine signedIn_ends (fun _ => trivial) fun user => ?_
  unfold disable_mfa
  simp only [Tx.bind_eq, Tx.bind_assoc]
  refine verify_sensitive_action_ends fun shown written held covered far accepted => ?_
  have settled : FactorEnd env (.disable user_id given clock audit_id) (.shown shown) fin written held :=
    shown_end (fun _ => id) covered far accepted
  refine step_ends settled (fun _ => id) ?_ fun _ _ settled => ?_
  · exact adds_deleteAll fun _ _ => .inr stems_none
  refine step_ends settled (fun _ => id) ?_ fun _ _ settled => ?_
  · exact adds_deleteAll fun _ _ => stems_none
  refine step_ends settled (fun _ => id) ?_ fun _ _ settled => ?_
  · exact adds_updateAll (open_needs_same (factors_invalidated (clock 3)))
      fun _ => factors_challenge (factors_invalidated (clock 3))
  refine step_ends settled (fun _ => id) ?_ fun _ _ settled => ?_
  · exact adds_updateAll (fun _ _ _ => id) fun _ _ => trivial
  exact step_ends settled (fun _ => id) factors_report fun _ _ settled => settled

theorem confirm_totp_ends {user_id : UserId} {code : Text} {clock : Clock} {codes : NewCodes}
    {audit_id : Text} :
    Consumes env (.confirm user_id code clock codes audit_id)
      ((FactorCall.confirm user_id code clock codes audit_id).program env) fin [] [] := by
  refine signedIn_ends (fun _ => trivial) fun _ => ?_
  unfold confirm_totp_setup anyMethod
  simp only [Tx.bind_eq, Tx.bind_assoc]
  refine findForUpdate_either (fun _ _ => trivial) fun method_id method here _ => ?_
  dsimp only
  split
  · trivial
  · rename_i pending_setup
    have disabled : ¬method.is_enabled = true := fun enabled => pending_setup (.inl enabled)
    simp only [Tx.bind_assoc]
    refine secret_decrypt_ends (fun _ => trivial) fun secret _ => ?_
    refine matching_counter_ends (fun _ => trivial) trivial fun counter _ => ?_
    simp only [Tx.bind_assoc]
    refine update_ends (fun _ _ _ => trivial) fun _ _ => ?_
    have settled : FactorEnd env (.confirm user_id code clock codes audit_id)
        (.confirmed ⟨method_id, user_id, method.secret_encrypted, counter, codes.map (·.2)⟩) fin
        [⟨.user_mfa_methods, method_id, .update (·.enable counter (clock 0))⟩]
        ((.row .user_mfa_methods method_id, .noKeyUpdate) :: (.row .user_mfa_methods method_id, .update) ::
          []) := by
      refine ⟨fun w mem => ?_, ?_, fun _ added => added.elim, fun _ completed => (by cases completed),
        fun _ failed => (by cases failed), ?_⟩
      · rw [List.mem_singleton.mp mem]
        exact covered_update (locks_of_mem (by simp)) fun _ _ _ => id
      · exact Evolution.far_nil.update here (stems_some ⟨rfl, rfl, fun _ => rfl,
          fun enabled => absurd enabled disabled⟩)
      · rintro _ _ ⟨⟩
        refine ⟨method, here, fun enabled => absurd enabled disabled, fun method' there => ?_⟩
        have here' : fin.row .user_mfa_methods method_id = some method := here
        obtain rfl : method.enable counter (clock 0) = method' := by simpa [here', Change.on] using there
        exact ⟨rfl, counter, rfl, Int.le_refl _⟩
    refine step_ends settled (fun _ => id) ?_ fun _ _ settled => ?_
    · exact replace_recovery_codes_ends fun _ mem => mem
    · exact step_ends settled (fun _ => id) factors_report fun _ _ settled => settled

section

variable {token : Text} {code recovery_code : Option Text} {clock : Clock} {audit_id challenge_id : Text}
  {challenge : AuthMfaChallenge} {user_id : UserId}

theorem closeChallenge_ends {now : Time} {error : AuthError} :
    Consumes env (.verifyLogin token code recovery_code clock audit_id)
      ((closeChallenge challenge_id now error).bind fun result => .done (.login result)) fin [] held := by
  unfold closeChallenge
  simp only [Tx.bind_eq, Tx.bind_assoc]
  refine update_ends (fun _ _ _ => trivial) fun _ _ => ?_
  refine plain_end (fun w mem => ?_) (Evolution.far_of_keeps fun w mem => ?_) (fun _ => id) rfl rfl rfl
  · rw [List.mem_singleton.mp mem]
    exact covered_update (locks_of_mem (by simp)) (open_needs_same (factors_invalidated now))
  · rw [List.mem_singleton.mp mem]
    exact factors_challenge (factors_invalidated now)

theorem failChallenge_ends {now : Time}
    (here : fin.row .auth_mfa_challenges challenge_id = some challenge)
    (below : challenge.attempt_count < env.mfa_max_attempts) :
    Consumes env (.verifyLogin token code recovery_code clock audit_id)
      ((failChallenge env challenge_id challenge user_id recovery_code now audit_id).bind
        fun result => .done (.login result)) fin [] held := by
  unfold failChallenge
  simp only [Tx.bind_eq, Tx.bind_assoc]
  refine update_ends (fun _ _ _ => trivial) fun _ _ => ?_
  have still_open : ∀ row : AuthMfaChallenge, ∀ attempts blocked,
      (row.attempt attempts blocked now).openLogin = true → row.openLogin = true := by
    intro row attempts blocked opened
    cases blocked with
    | false => exact opened
    | true => simp [AuthMfaChallenge.attempt, AuthMfaChallenge.openLogin, AuthMfaChallenge.isOpen] at opened
  refine step_ends ?_ (fun _ => id) factors_report fun _ _ settled => settled
  refine ⟨fun w mem => ?_, ?_, fun _ added => added.elim, fun _ completed => (by cases completed), ?_,
    fun _ _ consumed => (by cases consumed)⟩
  · rw [List.mem_singleton.mp mem]
    exact covered_update (locks_of_mem (by simp)) fun row r m needed =>
      ⟨still_open row _ _ needed.1, needed.2⟩
  · refine Evolution.far_nil.update here ⟨persists_some ?_, .inr fun there => by cases there⟩
    exact ⟨rfl, still_open challenge _ _, id, Nat.le_succ _⟩
  · rintro _ ⟨⟩
    refine ⟨challenge, challenge.attempt (challenge.attempt_count + 1)
      (env.mfa_max_attempts ≤ challenge.attempt_count + 1) now, here, below, ?_, Nat.lt_succ_self _⟩
    simp [here, Change.on]

theorem completeChallenge_ends {method_id : Text} {used : Consumed} {now : Time}
    (here : fin.row .auth_mfa_challenges challenge_id = some challenge) (unused : challenge.used_at = none)
    (covered : AllCovered openNeeds held written)
    (far : (factors (FactorCall.verifyLogin token code recovery_code clock audit_id).adds).Far fin written)
    (accepted : Accepted (FactorCall.verifyLogin token code recovery_code clock audit_id).adds fin written
      method_id used) :
    Consumes env (.verifyLogin token code recovery_code clock audit_id)
      ((completeChallenge challenge_id challenge user_id method_id used now audit_id).bind
        fun result => .done (.login result)) fin written held := by
  unfold completeChallenge
  simp only [Tx.bind_eq, Tx.bind_assoc]
  refine update_ends (fun _ _ _ => trivial) fun row between => ?_
  have settled : FactorEnd env (.verifyLogin token code recovery_code clock audit_id)
      (.login (.success challenge_id user_id method_id used challenge.primary_method)) fin
      (written ++ [⟨.auth_mfa_challenges, challenge_id, .update ({ · with used_at := some now })⟩])
      ((.row .auth_mfa_challenges challenge_id, .noKeyUpdate) :: held) := by
    refine completed_end here unused covered far (fun _ => id) between rfl rfl ?_
    rintro _ _ ⟨⟩
    exact accepted
  refine step_ends settled (fun _ => id) ?_ fun _ _ settled => ?_
  · exact adds_update (fun _ _ _ => id) factors_user
  · exact step_ends settled (fun _ => id) factors_report fun _ _ settled => settled

theorem verifyLogin_challenge_ends :
    Consumes env (.verifyLogin token code recovery_code clock audit_id)
      ((FactorCall.verifyLogin token code recovery_code clock audit_id).program env) fin [] [] := by
  unfold FactorCall.program verify_login_challenge
  simp only [Tx.bind_eq, Tx.bind_assoc]
  refine findForUpdate_either (fun _ _ => trivial) fun challenge_id challenge here _ => ?_
  dsimp only
  split
  · trivial
  rename_i unused
  split
  · trivial
  split
  · exact closeChallenge_ends
  split
  · exact closeChallenge_ends
  rename_i below
  unfold lockedMethod
  simp only [Tx.bind_assoc]
  refine findForUpdate_either (fun _ _ => ?_) fun method_id method there matches_ => ?_
  · exact get_ends fun _ _ => closeChallenge_ends
  · refine get_ends fun _ _ => ?_
    have enabled : method.is_enabled = true := by
      simp only [Bool.and_eq_true] at matches_
      exact matches_.2
    split
    · rename_i method_id' method' _ found _
      obtain ⟨rfl, rfl⟩ : method_id = method_id' ∧ method = method' := by simpa using found
      rw [Tx.bind_assoc]
      refine factor_ends there enabled (fun _ _ => ?_) fun used written held _ covered far accepted => ?_
      · exact failChallenge_ends here (Nat.not_le.mp below)
      · exact completeChallenge_ends here (by simpa using unused) covered far accepted
    · exact closeChallenge_ends

end

/-- A login is completed with a passkey: its challenge is locked, and open. -/
theorem verifyPasskey_ends {challenge_token ceremony_token : Text} {payload : Json} {clock : Clock}
    {audit : AuditIds} :
    Consumes env (.verifyPasskey challenge_token ceremony_token payload clock audit)
      ((FactorCall.verifyPasskey challenge_token ceremony_token payload clock audit).program env) fin
      [] [] := by
  have refused : ∀ {error written held}, AllCovered openNeeds held written →
      (∀ w ∈ written,
        (factors (FactorCall.verifyPasskey challenge_token ceremony_token payload clock audit).adds).Keeps
          w) →
      FactorEnd env (.verifyPasskey challenge_token ceremony_token payload clock audit) (.refused error) fin
        written held := fun covered keeps =>
    plain_end covered (Evolution.far_of_keeps keeps) (fun _ => id) rfl rfl rfl
  unfold FactorCall.program verify_mfa
  simp only [Tx.bind_eq, Tx.bind_assoc]
  refine lockedChallenge_ends (fun _ _ _ => trivial) fun challenge_id challenge here _ is_open _ => ?_
  have unused : challenge.used_at = none := by
    simp only [AuthMfaChallenge.isOpen, Bool.and_eq_true, Option.isNone_iff_eq_none] at is_open
    exact is_open.1
  dsimp only
  refine locked_ceremony_ends (fun _ _ _ => trivial) (fun ceremony_id _ => ?_)
    fun ceremony_id ceremony _ _ _ _ => ?_
  · refine refused (fun w mem => ?_) fun w mem => ?_
    · rw [List.mem_singleton.mp mem]
      exact covered_update (locks_of_mem (by simp)) fun _ _ _ => id
    · rw [List.mem_singleton.mp mem]
      exact fun _ => trivial
  · dsimp only
    split
    · trivial
    · simp only [Tx.bind_assoc]
      refine verify_authentication_ends openNeeds_free (fun _ _ _ => trivial)
        (fun _ written held' _ kinds covered => ?_)
        fun credential_row record verification reports held' _ _ _ _ reported covered => ?_
      · exact refused covered fun w mem => factors_attempt (kinds w mem)
      · simp only [Tx.bind_assoc]
        refine update_ends (fun _ _ _ => trivial) fun row between => ?_
        have far : (factors (FactorCall.verifyPasskey challenge_token ceremony_token payload clock
            audit).adds).Far fin (reports ++ signedWrites ceremony_id credential_row record.user_id
              verification fun reading => clock (reading + 1)) := by
          refine Evolution.far_of_keeps fun w mem => ?_
          rcases List.mem_append.mp mem with report | signed
          · obtain ⟨id, entry, rfl⟩ := reported w report
            exact factors_audit
          · exact factors_signed w signed
        have settled := @completed_end env
          (.verifyPasskey challenge_token ceremony_token payload clock audit)
          (.passkey ⟨challenge_id, ⟨ceremony_id, ceremony, credential_row, record.user_id⟩,
            challenge.primary_method⟩) fin _ held' challenge_id challenge row (clock 6) here unused covered
          far (fun _ => id) between rfl rfl fun _ _ consumed => by cases consumed
        exact step_ends settled (fun _ => id) factors_report fun _ _ settled => settled

theorem factorCall_ends (env : Environment) (call : FactorCall) (fin : Db) :
    Consumes env call (call.program env) fin [] [] := by
  cases call with
  | createChallenge => exact createChallenge_ends
  | verifyLogin => exact verifyLogin_challenge_ends
  | verifyPasskey => exact verifyPasskey_ends
  | confirm => exact confirm_totp_ends
  | sensitive => exact sensitive_ends
  | regenerate => exact regenerate_ends
  | disable => exact disable_mfa_ends

end

end PackageRegistry.Accounts
