import PackageRegistry.Auth.Claims
import PackageRegistry.Lib.JsonEquality

/-! # Refreshing does not renew an authentication

`issue_session` and `refresh_session` again, now with what is inside the tokens. A refresh
copies the authentication of the token that it is given, and it is given a refresh token of
an earlier call. So every token tells of the sign-in that has started its family.
-/

namespace PackageRegistry.Auth

open Transactions Runs

/-! ## Calls with their tokens -/

inductive LoginCall where
  | issue (user_id : UserId) (family_id : FamilyId) (authenticated_at : Time)
      (amr : Option (List Text)) (m : Minting)
  | refresh (refresh_token : Text) (decoded_at now : Time) (m : Minting)

def LoginCall.minting : LoginCall → Minting
  | .issue _ _ _ _ m | .refresh _ _ _ m => m

/-- A claim that PyJWT has checked to be a string -/
def textClaim (payload : Claims) (key : Text) : Text :=
  match payload.lookup key with
  | some (.str s) => s
  | _ => []

/-- What `refresh_session` sees of tokens at a time -/
def Jwt.environment (jwt : Jwt) (env : Environment) (decoded_at : Time) : Environment :=
  { env with
      decode_jwt := fun token =>
        (decode_jwt jwt decoded_at token "refresh").map fun payload =>
          ⟨textClaim payload (text "sub"), textClaim payload (text "jti")⟩ }

section

variable (jwt : Jwt) (settings : TokenSettings) (env : Environment)

def LoginCall.environment : LoginCall → Environment
  | .issue .. => env
  | .refresh _ decoded_at _ _ => jwt.environment env decoded_at

/-- The payload of the token that a refresh presents. Without one it makes no token. -/
def LoginCall.payload : LoginCall → Claims
  | .issue .. => []
  | .refresh refresh_token decoded_at _ _ =>
      ((decode_jwt jwt decoded_at refresh_token "refresh").toOption).getD []

/-- The user of the tokens. A refresh has compared its token with the record. -/
def LoginCall.user : LoginCall → UserId
  | .issue user_id .. => user_id
  | call => textClaim (call.payload jwt) (text "sub")

def LoginCall.authentication : LoginCall → Authentication
  | .issue _ _ authenticated_at amr _ => ⟨some authenticated_at, amr⟩
  | call => jwt.carried (call.payload jwt)

def LoginCall.access (call : LoginCall) : Claims :=
  accessPayload settings (call.user jwt) (call.authentication jwt) call.minting

def LoginCall.refreshed (call : LoginCall) : Claims :=
  refreshPayload settings (call.user jwt) (call.authentication jwt) call.minting

def LoginCall.next (call : LoginCall) : NextToken where
  jti := call.minting.refresh_jti
  token_hash := env.hash_token (jwt.encode (call.refreshed jwt settings))
  expires_at := call.minting.expires_at

def LoginCall.session (call : LoginCall) : SessionCall :=
  match call with
  | .issue user_id family_id _ _ _ => .issue user_id family_id (call.next jwt settings env)
  | .refresh refresh_token _ now _ => .refresh refresh_token now (call.next jwt settings env)

variable (logins : Pid → LoginCall)

/-- The calls of a run, every one about to start. -/
def loginWorld (db : Db) : World :=
  openCalls (fun pid => (logins pid).environment jwt env)
    (fun pid => (logins pid).session jwt settings env) db

/-- An outcome that is answered with cookies -/
def Outcome.signsIn : Outcome → Bool
  | .nothing | .refreshed _ => true
  | _ => false

def SignedIn (s : World) (pid : Pid) : Prop :=
  ∃ o, s.proc pid = .committed o ∧ o.signsIn = true

/-- A token in the cookies of a call. They are set after the commit. -/
def HandedOut (s : World) (token : Text) : Prop :=
  ∃ pid, SignedIn s pid ∧ (token = jwt.encode ((logins pid).access jwt settings) ∨
    token = jwt.encode ((logins pid).refreshed jwt settings))

/-- Nobody else can sign: a token that passes has been handed out. -/
def Genuine (s : World) (decoded_at : Time) (token : Text) : Prop :=
  ∀ payload, jwt.decode decoded_at token = .ok payload → HandedOut jwt settings logins s token

/-- A refresh is at work only on a genuine token. -/
def Unforged (s : World) (e : Transactions.Event) : Prop :=
  ∀ pid refresh_token decoded_at now m, e = .step pid →
    logins pid = .refresh refresh_token decoded_at now m →
      Genuine jwt settings logins s decoded_at refresh_token

/-- The call `q` has started the family that the tokens of `pid` belong to. -/
structure StartedBy (s : World) (pid q : Pid) (authenticated_at : Time)
    (amr : Option (List Text)) : Prop where
  signed_in : SignedIn s q
  family : ∃ user_id family_id m r, logins q = .issue user_id family_id authenticated_at amr m ∧
    s.db.sessionAt (logins pid).minting.refresh_jti = some r ∧ r.family_id = family_id

/-- The access token of a family that an interactive authentication within the window
    has started -/
def RecentlyStarted (s : World) (token : Text) (now : Time) (window : Nat) : Prop :=
  ∃ pid q authenticated_at amr, SignedIn s pid ∧
    token = jwt.encode ((logins pid).access jwt settings) ∧
    StartedBy logins s pid q authenticated_at amr ∧ now ≤ authenticated_at + window

end

/-! ## The session behind a token -/

def SessionCall.next : SessionCall → NextToken
  | .issue _ _ next | .refresh _ _ next => next

/-- The record of the new refresh token is there, in the family of the presented one or in
    the one that the call starts. -/
def Hands (env : Environment) (call : SessionCall) (fin : Db) (pending : List Write) : Prop :=
  ∃ r, (view Db.apply fin pending).sessionAt call.next.jti = some r ∧
    (call.family = some r.family_id ∨ ∃ jti old, call.presented env = some jti ∧
      fin.sessionAt jti = some old ∧ old.family_id = r.family_id)

def hands (env : Environment) (call : SessionCall) : Post Db Resource Write Refusal Outcome
  | .ok o, fin, pending, _ => o.signsIn = true → Hands env call fin pending
  | .error _, _, _, _ => True

section

variable {env : Environment} {call : SessionCall} {fin : Db} {pending : List Write}
  {held : Held Resource}

theorem anything_ends {α : Type} {t : Program α} {f : α → Program Outcome}
    (rest : ∀ a pending held, Ends Db.apply anybody (hands env call) (f a) fin pending held) :
    Ends Db.apply anybody (hands env call) (t.bind f) fin pending held := by
  refine .bind (ends_of_forall fun result pending held => ?_)
  cases result with
  | ok a => exact rest a pending held
  | error => trivial

theorem failed_ends {error : AuthError} {revoked : Option Scope} :
    Ends Db.apply anybody (hands env call) (pure (.failed error revoked) : Program Outcome) fin
      pending held := by
  intro signsIn
  cases signsIn

theorem issue_session_hands (user_id : UserId) (family_id : FamilyId) (next : NextToken) :
    Ends Db.apply anybody (hands env (.issue user_id family_id next))
      (issue_session user_id family_id next) fin [] [] := by
  refine .insertNew (fun db _ _ => trivial) fun db _ _ => ?_
  refine referUser_ends ?_ (fun _ => trivial) fun _ _ => ?_
  · intro w mem
    rw [List.mem_singleton.mp mem]
    rfl
  · refine ⟨create_session_record user_id family_id next, ?_, .inl rfl⟩
    rw [view_sessionAt]
    simp [rowAfter, Write.onSession, SessionCall.next]

theorem rotateSession_hands {payload : Payload} {record : UserSession} {refresh_token : Text}
    {now : Time} {next : NextToken}
    (presented : (SessionCall.refresh refresh_token now next).presented env = some payload.jti)
    (here : fin.sessionAt payload.jti = some record) :
    Ends Db.apply anybody (hands env (.refresh refresh_token now next))
      (rotateSession payload.jti record now next) fin [] held := by
  refine .acquire (.put (.insertNew (fun db _ _ => trivial) fun db _ _ => ?_))
  refine referUser_ends ?_ (fun _ => trivial) fun _ _ => ?_
  · intro w mem
    simp only [List.nil_append, List.mem_append, List.mem_singleton] at mem
    rcases mem with rfl | rfl <;> rfl
  · refine ⟨create_session_record record.user_id record.family_id next, ?_,
      .inr ⟨payload.jti, record, presented, here, rfl⟩⟩
    rw [view_sessionAt]
    simp [rowAfter, Write.onSession, SessionCall.next, create_session_record]

theorem refreshRecord_hands {payload : Payload} {record : UserSession} {refresh_token : Text}
    {now : Time} {next : NextToken}
    (presented : (SessionCall.refresh refresh_token now next).presented env = some payload.jti)
    (here : fin.sessionAt payload.jti = some record) :
    Ends Db.apply anybody (hands env (.refresh refresh_token now next))
      (refreshRecord env payload refresh_token now next record) fin [] held := by
  unfold refreshRecord
  split
  · trivial
  · split
    · split
      · trivial
      · exact anything_ends fun _ _ _ => .put (anything_ends fun _ _ _ => failed_ends)
    · split
      · trivial
      · split
        · exact .acquire (.put failed_ends)
        · refine .query fun db _ => ?_
          split
          · exact anything_ends fun _ _ _ => failed_ends
          · split
            · exact rotateSession_hands presented here
            · exact anything_ends fun _ _ _ => failed_ends

theorem refresh_session_hands (refresh_token : Text) (now : Time) (next : NextToken) :
    Ends Db.apply anybody (hands env (.refresh refresh_token now next))
      (refresh_session env refresh_token now next) fin [] [] := by
  unfold refresh_session
  split
  · trivial
  · trivial
  · rename_i payload decoded
    split
    · trivial
    · refine selectForUpdate_ends trivial fun db allowed => ?_
      have row : fin.sessionAt payload.jti = db.sessionAt payload.jti :=
        allowed.1.locked payload.jti (.inr (by simp))
      split
      · trivial
      · rename_i record here
        exact refreshRecord_hands (by simp [SessionCall.presented, decoded, Except.toOption])
          (row.trans here)

theorem sessionCall_hands (call : SessionCall) :
    Ends Db.apply anybody (hands env call) (call.program env) fin [] [] := by
  cases call with
  | issue user_id family_id next => exact issue_session_hands user_id family_id next
  | refresh refresh_token now next => exact refresh_session_hands refresh_token now next

end

/-! ## Where the tokens of a run come from -/

/-- What holds in every state of a run. -/
structure Traced (jwt : Jwt) (settings : TokenSettings) (env : Environment)
    (logins : Pid → LoginCall) (s : World) : Prop where
  rotates : Rotates (fun pid => (logins pid).environment jwt env)
    (fun pid => (logins pid).session jwt settings env) s
  heading : Heading Db.apply (fun _ => anybody)
    (fun pid => hands ((logins pid).environment jwt env) ((logins pid).session jwt settings env)) s
  origin : ∀ pid, SignedIn s pid → ∃ q authenticated_at amr,
    StartedBy logins s pid q authenticated_at amr ∧
      ((logins pid).authentication jwt).stated = Authentication.stated ⟨some authenticated_at, amr⟩

section

variable {jwt : Jwt} {settings : TokenSettings} {env : Environment} {logins : Pid → LoginCall}
  {s : World}

theorem session_next (call : LoginCall) :
    (call.session jwt settings env).next = call.next jwt settings env := by
  cases call <;> rfl

theorem access_states (call : LoginCall) :
    States (call.access jwt settings) (call.authentication jwt) :=
  accessPayload_states settings _ _ _

theorem refreshed_states (call : LoginCall) :
    States (call.refreshed jwt settings) (call.authentication jwt) :=
  refreshPayload_states settings _ _ _

theorem refreshed_jti (call : LoginCall) :
    textClaim (call.refreshed jwt settings) (text "jti") = call.minting.refresh_jti := by
  have usual : text "jti" ∈ usualKeys := by decide
  rw [textClaim, LoginCall.refreshed, refreshPayload_base settings _ _ _ usual]
  rfl

theorem States.of_stated {payload : Claims} {given given' : Authentication}
    (states : States payload given) (same : given.stated = given'.stated) :
    States payload given' where
  auth_time := by rw [states.auth_time, same]
  amr := by rw [states.amr, same]

/-- A token is decoded only if it has the expected type. -/
theorem decode_jwt_ok {decoded_at : Time} {token : Text} {expected_type : String}
    {payload : Claims} (decoded : decode_jwt jwt decoded_at token expected_type = .ok payload) :
    jwt.decode decoded_at token = .ok payload ∧
      payload.lookup (text "type") = some (.str (text expected_type)) := by
  unfold decode_jwt at decoded
  split at decoded
  · cases decoded
  · rename_i payload' passes
    split at decoded
    · rename_i token_type found
      split at decoded
      · rename_i expected
        obtain rfl := Except.ok.inj decoded
        exact ⟨passes, expected ▸ found⟩
      · cases decoded
    · cases decoded

/-- A genuine token of one type has the payload that a call has signed. -/
theorem Genuine.payload (signs : jwt.Signs) {decoded_at : Time} {token : Text} {payload : Claims}
    (genuine : Genuine jwt settings logins s decoded_at token)
    (decoded : jwt.decode decoded_at token = .ok payload) :
    ∃ pid, SignedIn s pid ∧
      (token = jwt.encode ((logins pid).access jwt settings) ∧
          payload = (logins pid).access jwt settings ∨
        payload = (logins pid).refreshed jwt settings) := by
  obtain ⟨pid, signedIn, rfl | rfl⟩ := genuine payload decoded
  · exact ⟨pid, signedIn, .inl ⟨rfl, signs _ _ _ decoded⟩⟩
  · exact ⟨pid, signedIn, .inr (signs _ _ _ decoded)⟩

theorem access_type (call : LoginCall) :
    (call.access jwt settings).lookup (text "type") = some (.str (text "access")) :=
  accessPayload_type settings _ _ _

theorem refreshed_type (call : LoginCall) :
    (call.refreshed jwt settings).lookup (text "type") = some (.str (text "refresh")) := by
  have usual : text "type" ∈ usualKeys := by decide
  rw [LoginCall.refreshed, refreshPayload_base settings _ _ _ usual]
  rfl

theorem types_apart {call : LoginCall} (typed : (call.access jwt settings).lookup (text "type") =
    some (.str (text "refresh"))) : False := by
  have apart : text "access" ≠ text "refresh" := by decide
  rw [access_type, Option.some.injEq, Json.str.injEq] at typed
  exact apart typed

/-- A genuine token that is good for a refresh is the refresh token of a call. -/
theorem Genuine.refresh (signs : jwt.Signs) {decoded_at : Time} {token : Text} {payload : Claims}
    (genuine : Genuine jwt settings logins s decoded_at token)
    (decoded : decode_jwt jwt decoded_at token "refresh" = .ok payload) :
    ∃ pid, SignedIn s pid ∧ payload = (logins pid).refreshed jwt settings := by
  obtain ⟨passes, typed⟩ := decode_jwt_ok decoded
  obtain ⟨pid, signedIn, ⟨-, rfl⟩ | same⟩ := genuine.payload signs passes
  · exact (types_apart typed).elim
  · exact ⟨pid, signedIn, same⟩

/-- A genuine token that is good for access is the access token of a call. -/
theorem Genuine.access (signs : jwt.Signs) {decoded_at : Time} {token : Text} {payload : Claims}
    (genuine : Genuine jwt settings logins s decoded_at token)
    (decoded : decode_jwt jwt decoded_at token "access" = .ok payload) :
    ∃ pid, SignedIn s pid ∧ token = jwt.encode ((logins pid).access jwt settings) ∧
      payload = (logins pid).access jwt settings := by
  obtain ⟨passes, typed⟩ := decode_jwt_ok decoded
  obtain ⟨pid, signedIn, same | rfl⟩ := genuine.payload signs passes
  · exact ⟨pid, signedIn, same⟩
  · have apart : text "refresh" ≠ text "access" := by decide
    rw [refreshed_type, Option.some.injEq, Json.str.injEq] at typed
    exact absurd typed apart

/-- What a step keeps of sign-ins and of the records of sessions -/
theorem SignedIn.step {pid : Pid} (signedIn : SignedIn s pid) (e : Transactions.Event) :
    SignedIn (s.step Db.apply e) pid := by
  obtain ⟨o, ended, signsIn⟩ := signedIn
  refine ⟨o, ?_, signsIn⟩
  rcases s.step_cases Db.apply e with ⟨q, o', pending, rfl, at_, stepped⟩ | ⟨-, before⟩
  · have other : pid ≠ q := by
      rintro rfl
      rw [at_] at ended
      cases ended
    rw [stepped]
    simpa [State.finish, Function.update_of_ne other] using ended
  · exact (before pid o).mpr ended

theorem Traced.keeps (h : Traced jwt settings env logins s) {pid q : Pid} {authenticated_at : Time}
    {amr : Option (List Text)} (started : StartedBy logins s pid q authenticated_at amr)
    (e : Transactions.Event) :
    StartedBy logins (s.step Db.apply e) pid q authenticated_at amr := by
  obtain ⟨user_id, family_id, m, r, issued, here, family⟩ := started.family
  obtain ⟨r', there, later⟩ := h.rotates.grows e _ r here
  exact ⟨started.signed_in.step e, user_id, family_id, m, r', issued, there,
    later.family.trans family⟩

/-- The tokens of a call that is about to commit belong to the family that its own sign-in or
    that of the presented token has started. -/
theorem Traced.handed (h : Traced jwt settings env logins s) (signs : jwt.Signs) {pid : Pid}
    (unforged : Unforged jwt settings logins s (.step pid)) {o : Outcome} {pending : List Write}
    (at_ : s.proc pid = .running (.done o) pending) (signsIn : o.signsIn = true) :
    ∃ q authenticated_at amr, StartedBy logins (s.step Db.apply (.step pid)) pid q authenticated_at amr ∧
      ((logins pid).authentication jwt).stated = Authentication.stated ⟨some authenticated_at, amr⟩ := by
  have stepped : s.step Db.apply (.step pid) =
      { s.finish pid (.committed o) with db := view Db.apply s.db pending } := by
    simp only [State.step, at_]
  have signedIn : SignedIn (s.step Db.apply (.step pid)) pid := by
    refine ⟨o, ?_, signsIn⟩
    rw [stepped]
    simp [State.finish]
  obtain ⟨r, there, family⟩ := h.heading.post_of_done at_ signsIn
  rw [session_next] at there
  have new : (s.step Db.apply (.step pid)).db.sessionAt (logins pid).minting.refresh_jti = some r := by
    rw [stepped]
    exact there
  cases calls : logins pid with
  | issue user_id family_id authenticated_at amr m =>
      rw [calls] at family
      refine ⟨pid, authenticated_at, amr, ⟨signedIn, user_id, family_id, m, r, calls, new, ?_⟩, rfl⟩
      rcases family with started | ⟨jti, old, presented, -⟩
      · exact (Option.some.inj started).symm
      · cases presented
  | refresh refresh_token decoded_at now m =>
      rw [calls] at family
      rcases family with started | ⟨jti, old, presented, here, sameFamily⟩
      · cases started
      · -- the presented token is the refresh token of an earlier call
        cases decoded : decode_jwt jwt decoded_at refresh_token "refresh" with
        | error e =>
            simp [SessionCall.presented, LoginCall.session, LoginCall.environment, Jwt.environment,
              decoded, Except.map, Except.toOption] at presented
        | ok payload =>
            have genuine := unforged pid refresh_token decoded_at now m rfl calls
            obtain ⟨parent, before, rfl⟩ := genuine.refresh signs decoded
            obtain ⟨q, authenticated_at, amr, started, same⟩ := h.origin parent before
            have jti_eq : (logins parent).minting.refresh_jti = jti := by
              simpa [SessionCall.presented, LoginCall.session, LoginCall.environment,
                Jwt.environment, decoded, Except.map, Except.toOption, refreshed_jti] using presented
            obtain ⟨user_id, family_id, m', r', issued, here', named⟩ := started.family
            obtain rfl : r' = old := by
              rw [jti_eq, here] at here'
              exact (Option.some.inj here').symm
            refine ⟨q, authenticated_at, amr, ⟨started.signed_in.step _, user_id, family_id, m', r,
              issued, new, sameFamily.symm.trans named⟩, ?_⟩
            have carried : (LoginCall.refresh refresh_token decoded_at now m).authentication jwt =
                ((logins parent).authentication jwt).stated := by
              have found : (LoginCall.refresh refresh_token decoded_at now m).payload jwt =
                  (logins parent).refreshed jwt settings := by
                simp [LoginCall.payload, decoded, Except.toOption]
              exact (congrArg jwt.carried found).trans ((refreshed_states _).carried jwt)
            rw [carried, Authentication.stated_stated, same]

theorem Traced.step (h : Traced jwt settings env logins s) (signs : jwt.Signs)
    (fresh : NewFamilies fun pid => (logins pid).session jwt settings env)
    (e : Transactions.Event) (unforged : Unforged jwt settings logins s e) :
    Traced jwt settings env logins (s.step Db.apply e) := by
  have heading := h.heading.step e fun pid o pending _ at_ q t pending' other there =>
    ⟨(h.rotates.turn at_).undisturbed (heading_compatible h.heading (Ne.symm other)), trivial⟩
  refine ⟨h.rotates.step fresh e, heading, fun pid signedIn => ?_⟩
  have earlier : SignedIn s pid → ∃ q authenticated_at amr,
      StartedBy logins (s.step Db.apply e) pid q authenticated_at amr ∧
        ((logins pid).authentication jwt).stated =
          Authentication.stated ⟨some authenticated_at, amr⟩ := by
    intro before
    obtain ⟨q, authenticated_at, amr, started, same⟩ := h.origin pid before
    exact ⟨q, authenticated_at, amr, h.keeps started e, same⟩
  obtain ⟨o, ended, signsIn⟩ := signedIn
  rcases s.step_cases Db.apply e with ⟨q, o', pending, rfl, at_, stepped⟩ | ⟨-, before⟩
  · by_cases own : pid = q
    · subst own
      obtain rfl : o' = o := by
        rw [stepped] at ended
        simpa [State.finish] using ended
      exact h.handed signs unforged at_ signsIn
    · rw [stepped] at ended
      exact earlier ⟨o, by simpa [State.finish, Function.update_of_ne own] using ended, signsIn⟩
  · exact earlier ⟨o, (before pid o).mp ended, signsIn⟩

theorem traced_begin {db : Db} (none_yet : db.user_sessions = ∅) :
    Traced jwt settings env logins (loginWorld jwt settings env logins db) := by
  refine ⟨rotates_begin _ _ none_yet, .initial db _ fun pid fin _ => sessionCall_hands _, ?_⟩
  rintro pid ⟨o, ended, -⟩
  cases ended

/-! ## What is accepted as recent -/

/-- The time in a token is the time of the sign-in that has started its family. -/
theorem Traced.time (h : Traced jwt settings env logins s) {pid : Pid} (signedIn : SignedIn s pid) :
    ∃ q authenticated_at amr, StartedBy logins s pid q authenticated_at amr ∧
      States ((logins pid).access jwt settings) ⟨some authenticated_at, amr⟩ ∧
      States ((logins pid).refreshed jwt settings) ⟨some authenticated_at, amr⟩ := by
  obtain ⟨q, authenticated_at, amr, started, same⟩ := h.origin pid signedIn
  exact ⟨q, authenticated_at, amr, started, (access_states _).of_stated same,
    (refreshed_states _).of_stated same⟩

theorem States.auth_time_eq {payload : Claims} {authenticated_at : Time} {amr : Option (List Text)}
    (states : States payload ⟨some authenticated_at, amr⟩) {value : Json}
    (here : payload.lookup (text "auth_time") = some value) : value = .int authenticated_at := by
  rw [states.auth_time, Option.map_eq_some_iff] at here
  obtain ⟨seconds, kept, rfl⟩ := here
  rw [Authentication.stated, Option.filter_eq_some_iff] at kept
  rw [Option.some.inj kept.1]

/-- What `require_recent_auth` lets through is an access token whose time is in the window. -/
theorem require_recent_auth_ok {cookie : Option Text} {decoded_at now : Time}
    (accepted : require_recent_auth jwt settings cookie decoded_at now = .ok ()) :
    ∃ payload value seconds, decode_jwt jwt decoded_at (cookie.getD []) "access" = .ok payload ∧
      payload.lookup (text "auth_time") = some value ∧ asInt value = some seconds ∧
      (now : Int) - seconds ≤ settings.reauth_max_age_seconds := by
  unfold require_recent_auth at accepted
  split at accepted
  · cases accepted
  · rename_i payload decoded
    split at accepted
    · cases accepted
    · rename_i seconds found
      obtain ⟨value, here, isInt⟩ := Option.bind_eq_some_iff.mp found
      split at accepted
      · cases accepted
      · rename_i recent
        exact ⟨payload, value, seconds, decoded, here, isInt, by omega⟩

theorem _access_authenticated_at_some {cookie : Option Text} {decoded_at at_ : Time}
    (found : _access_authenticated_at jwt cookie decoded_at = some at_) :
    ∃ payload value seconds, decode_jwt jwt decoded_at (cookie.getD []) "access" = .ok payload ∧
      payload.lookup (text "auth_time") = some value ∧ jwt.intOf value = some seconds ∧
      at_ = seconds.toNat := by
  unfold _access_authenticated_at at found
  split at found
  · cases found
  · rename_i token here
    have same : cookie.getD [] = token := by
      obtain ⟨rfl, -⟩ := Option.filter_eq_some_iff.mp here
      rfl
    rw [same]
    split at found
    · cases found
    · rename_i payload decoded
      obtain ⟨seconds, isInt, inRange⟩ := Option.bind_eq_some_iff.mp found
      obtain ⟨value, present, isInt⟩ := Option.bind_eq_some_iff.mp isInt
      split at inRange
      · exact ⟨payload, value, seconds, decoded, present, isInt, (Option.some.inj inRange).symm⟩
      · cases inRange

/-- For an account without a password, only a recent authentication will do. -/
theorem reauthenticated {accounts : Accounts.Environment} {user : Accounts.User}
    {current_password : Option Text} {authenticated_at : Option Time} {now : Time}
    (no_password : Accounts.truthy user.password_hash = none)
    (accepted : Accounts.reauthenticationError accounts user current_password authenticated_at now =
      none) : ∃ at_, authenticated_at = some at_ ∧ now ≤ at_ + accounts.recent_auth_seconds := by
  unfold Accounts.reauthenticationError at accepted
  rw [no_password] at accepted
  cases authenticated_at with
  | none => simp at accepted
  | some at_ =>
      refine ⟨at_, rfl, ?_⟩
      by_contra old
      simp [old] at accepted

theorem Traced.recent (h : Traced jwt settings env logins s) (signs : jwt.Signs)
    {cookie : Option Text} {decoded_at : Time} {payload : Claims} {value : Json}
    (genuine : Genuine jwt settings logins s decoded_at (cookie.getD []))
    (decoded : decode_jwt jwt decoded_at (cookie.getD []) "access" = .ok payload)
    (here : payload.lookup (text "auth_time") = some value) :
    ∃ authenticated_at : Time, value = .int authenticated_at ∧
      ∀ now window : Nat, now ≤ authenticated_at + window →
        RecentlyStarted jwt settings logins s (cookie.getD []) now window := by
  obtain ⟨pid, signedIn, token, rfl⟩ := genuine.access signs decoded
  obtain ⟨q, authenticated_at, amr, started, states, -⟩ := h.time signedIn
  refine ⟨authenticated_at, states.auth_time_eq here, fun now window recent => ?_⟩
  exact ⟨pid, q, authenticated_at, amr, signedIn, token, started, recent⟩

end

/-- Along every chain of refreshes the tokens tell of the sign-in that has started the family,
    so only a recent sign-in is taken for a recent one. -/
theorem refreshing_keeps_authentication (jwt : Jwt) (signs : jwt.Signs) (settings : TokenSettings)
    (env : Environment) (logins : Pid → LoginCall) (db : Db) (none_yet : db.user_sessions = ∅)
    (fresh : NewFamilies fun pid => (logins pid).session jwt settings env)
    (events : List Transactions.Event)
    (unforged : Along (State.step Db.apply) (Unforged jwt settings logins)
      (loginWorld jwt settings env logins db) events) :
    let s := run (State.step Db.apply) (loginWorld jwt settings env logins db) events
    (∀ pid, SignedIn s pid → ∃ q authenticated_at amr,
      StartedBy logins s pid q authenticated_at amr ∧
        States ((logins pid).access jwt settings) ⟨some authenticated_at, amr⟩ ∧
        States ((logins pid).refreshed jwt settings) ⟨some authenticated_at, amr⟩) ∧
      ∀ cookie decoded_at, Genuine jwt settings logins s decoded_at (cookie.getD []) →
        (∀ now, require_recent_auth jwt settings cookie decoded_at now = .ok () →
          RecentlyStarted jwt settings logins s (cookie.getD []) now
            settings.reauth_max_age_seconds) ∧
        ∀ accounts user current_password now, Accounts.truthy user.password_hash = none →
          Accounts.reauthenticationError accounts user current_password
            (_access_authenticated_at jwt cookie decoded_at) now = none →
          RecentlyStarted jwt settings logins s (cookie.getD []) now
            accounts.recent_auth_seconds := by
  intro s
  have h : Traced jwt settings env logins s :=
    run_invariant_along (I := Traced jwt settings env logins)
      (fun _ e h genuine => h.step signs fresh e genuine) (traced_begin none_yet) unforged
  refine ⟨fun pid signedIn => h.time signedIn, fun cookie decoded_at genuine => ⟨?_, ?_⟩⟩
  · intro now accepted
    obtain ⟨payload, value, seconds, decoded, here, isInt, recent⟩ :=
      require_recent_auth_ok accepted
    obtain ⟨authenticated_at, rfl, started⟩ := h.recent signs genuine decoded here
    obtain rfl := Option.some.inj isInt
    exact started now _ (by omega)
  · intro accounts user current_password now no_password accepted
    obtain ⟨at_, found, recent⟩ := reauthenticated no_password accepted
    obtain ⟨payload, value, seconds, decoded, here, isInt, rfl⟩ :=
      _access_authenticated_at_some found
    obtain ⟨authenticated_at, rfl, started⟩ := h.recent signs genuine decoded here
    obtain rfl := Option.some.inj isInt
    exact started now _ (by simpa using recent)

/-! A session that is refreshed once, with tokens that are short names for their payloads -/

/-- Equality of strings and integers -/
def sameValue : Json → Json → Bool
  | .str s, .str s' => s == s'
  | .int n, .int n' => n == n'
  | _, _ => false

def samePayload : Claims → Claims → Bool
  | [], [] => true
  | (key, value) :: rest, (key', value') :: rest' =>
      key == key' && sameValue value value' && samePayload rest rest'
  | _, _ => false

theorem eq_of_sameValue {v w : Json} (same : sameValue v w = true) : v = w := by
  cases v <;> cases w <;> simp_all [sameValue]

theorem eq_of_samePayload {payload payload' : Claims} (same : samePayload payload payload' = true) :
    payload = payload' := by
  fun_induction samePayload payload payload' with
  | case1 => rfl
  | case2 key value rest key' value' rest' ih =>
      simp only [Bool.and_eq_true, beq_iff_eq] at same
      obtain ⟨⟨rfl, values⟩, rests⟩ := same
      rw [eq_of_sameValue values, ih rests]
  | case3 => cases same

/-- The JWT library of a service that signs few payloads -/
def fewTokens (known : List (Text × Claims)) : Jwt where
  encode payload := ((known.find? fun entry => samePayload payload entry.2).map (·.1)).getD []
  decode _ token :=
    match known.lookup token with
    | some payload => .ok payload
    | none => .error .invalid
  str _ := []
  int _ := none

theorem fewTokens_signs {known : List (Text × Claims)} (distinct : (known.map (·.1)).Nodup)
    (named : ([] : Text) ∉ known.map (·.1)) : (fewTokens known).Signs := by
  intro now payload payload' decoded
  have found : known.lookup ((fewTokens known).encode payload) = some payload' := by
    simp only [fewTokens] at decoded
    split at decoded
    · rename_i there
      exact there.trans (congrArg some (Except.ok.inj decoded))
    · cases decoded
  cases signed : known.find? fun entry => samePayload payload entry.2 with
  | none =>
      simp only [fewTokens, signed, Option.map_none, Option.getD_none] at found
      rw [lookup_absent named] at found
      cases found
  | some entry =>
      simp only [fewTokens, signed, Option.map_some, Option.getD_some] at found
      have same : payload = entry.2 := eq_of_samePayload (by simpa using List.find?_some signed)
      have here : known.lookup entry.1 = some entry.2 :=
        Json.lookup_of_mem distinct (List.mem_of_find?_eq_some signed)
      rw [same]
      exact Option.some.inj (found.symm.trans here)

/-- Sessions of a user, who signs in at 1000 and refreshes at 1010 -/
def signInSettings : TokenSettings where
  jwt_issuer := text "registry"
  jwt_audience := text "web"
  access_token_expire_minutes := 15
  refresh_token_expire_days := 1
  reauth_max_age_seconds := 300

def firstMinting : Minting where
  email := text "u@x"
  is_superuser := false
  access_jti := text "a0"
  access_now := 1000
  refresh_jti := text "r0"
  refresh_now := 1000
  expires_at := 87400

def secondMinting : Minting where
  email := text "u@x"
  is_superuser := false
  access_jti := text "a1"
  access_now := 1010
  refresh_jti := text "r1"
  refresh_now := 1010
  expires_at := 87410

/-- The tokens of both calls, named by their `jti` -/
def signInJwt : Jwt :=
  let given : Authentication := ⟨some 1000, none⟩
  fewTokens [
    (text "a0", accessPayload signInSettings (text "u") given firstMinting),
    (text "r0", refreshPayload signInSettings (text "u") given firstMinting),
    (text "a1", accessPayload signInSettings (text "u") given secondMinting),
    (text "r1", refreshPayload signInSettings (text "u") given secondMinting)]

def signInAndRefresh : Pid → LoginCall
  | 0 => .issue (text "u") (text "F") 1000 none firstMinting
  | _ => .refresh (text "r0") 1010 1010 secondMinting

/-- The first call from its start to its commit -/
def signIn : List Transactions.Event := List.replicate 5 (.step 0)

def refreshIt : List Transactions.Event := List.replicate 13 (.step 1)

def signedInWorld : World :=
  loginWorld signInJwt signInSettings plainEnvironment signInAndRefresh noSession

theorem signInJwt_signs : signInJwt.Signs := fewTokens_signs (by decide) (by decide)

theorem signInAndRefresh_fresh :
    NewFamilies fun pid => (signInAndRefresh pid).session signInJwt signInSettings plainEnvironment := by
  intro p q name hp hq
  match p, q with
  | 0, 0 => rfl
  | 0, _ + 1 => cases hq
  | _ + 1, _ => cases hp

set_option maxRecDepth 10000 in
theorem signIn_done : SignedIn (run (State.step Db.apply) signedInWorld signIn) 0 :=
  ⟨.nothing, rfl, rfl⟩

/-- Nobody else can name a token, and the refresh begins after the sign-in. -/
theorem signIn_genuine {s : World} (signedIn : SignedIn s 0) (decoded_at : Time) :
    Genuine signInJwt signInSettings signInAndRefresh s decoded_at (text "r0") :=
  fun _ _ => ⟨0, signedIn, .inr rfl⟩

theorem signIn_unforged : Along (State.step Db.apply)
    (Unforged signInJwt signInSettings signInAndRefresh) signedInWorld (signIn ++ refreshIt) := by
  rw [along_append]
  constructor
  · have first : Along (State.step Db.apply) (fun _ e => e = .step 0) signedInWorld signIn :=
      along_of_forall (fun e mem => List.eq_of_mem_replicate mem) _
    refine first.mono fun s e own pid refresh_token decoded_at now m step calls => ?_
    subst own
    cases step
    cases calls
  · have second : Along (State.step Db.apply) (fun _ e => e = .step 1)
        (run (State.step Db.apply) signedInWorld signIn) refreshIt :=
      along_of_forall (fun e mem => List.eq_of_mem_replicate mem) _
    refine second.of_invariant (I := fun s => SignedIn s 0) (fun s e signedIn => signedIn.step e) ?_
      signIn_done
    intro s e signedIn own pid refresh_token decoded_at now m step calls
    subst own
    cases step
    cases calls
    exact signIn_genuine signedIn _

def refreshedWorld : World := run (State.step Db.apply) signedInWorld (signIn ++ refreshIt)

set_option maxRecDepth 10000 in
theorem refresh_done : SignedIn refreshedWorld 1 := ⟨.refreshed (text "r1"), rfl, rfl⟩

set_option maxRecDepth 10000 in
/-- The refreshed access token is good for an action that needs a sign-in within five minutes:
    it began with one at 1000. -/
theorem refreshing_keeps_authentication_once :
    RecentlyStarted signInJwt signInSettings signInAndRefresh refreshedWorld (text "a1") 1200 300 := by
  have law := refreshing_keeps_authentication signInJwt signInJwt_signs signInSettings
    plainEnvironment signInAndRefresh noSession rfl signInAndRefresh_fresh (signIn ++ refreshIt)
    signIn_unforged
  have genuine : Genuine signInJwt signInSettings signInAndRefresh refreshedWorld 1100 (text "a1") :=
    fun _ _ => ⟨1, refresh_done, .inl rfl⟩
  have accepted : require_recent_auth signInJwt signInSettings (some (text "a1")) 1100 1200 = .ok () := by
    rfl
  exact (law.2 (some (text "a1")) 1100 genuine).1 1200 accepted

end PackageRegistry.Auth
