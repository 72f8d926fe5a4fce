import PackageRegistry.Lib.Runs
import PackageRegistry.Lib.Text

/-! # The auth plugin in the browser

`request`, `refresh`, `load`, `login` and `logout` of the Nuxt plugin, on the client. An
operation runs without a break from one `await` to the next, and what was waiting for
the shared `refreshPromise` goes on in the turn in which that promise settles. So the
events are the calls, the answers of the server and the ends of the pauses of the retry
loop, in any order. Paths, request bodies and headers only travel to the server and are
left out.
-/

namespace PackageRegistry.Browser

structure AuthUser where
  id : Text
  email : Text
  first_name : Text
  last_name : Text
  display_name : Option Text
  is_verified : Bool
  email_pending : Bool
deriving DecidableEq

structure MfaChallenge where
  challenge_token : Option Text
  methods : List Text
  preferred_method : Text
  expires_in : Nat
deriving DecidableEq

/-- A body, by the type that it has. A body of another type than its `raw<T>` names
    makes the code that reads it throw. -/
inductive Body where
  | user (value : AuthUser)
  | authenticated (user : AuthUser)
  | mfa_required (challenge : MfaChallenge)
  | other

/-- `code` and `message` are those of `detail.error`. -/
structure Response where
  status : Nat
  code : Option Text
  message : Option Text
  body : Body

structure AuthError where
  message : Text
  code : Text
  status : Nat
deriving DecidableEq

/-- What an operation throws: an `AuthError`, or an error of `fetch` or of the language -/
inductive Failure where
  | auth (error : AuthError)
  | other
deriving DecidableEq

inductive Call where
  | request
  | load
  | login
  | logout
deriving DecidableEq

/-- Where an operation waits, or how it ended -/
inductive Point where
  | sent
  | refreshing (error : Failure)
  | resent
  | resolved
  | rejected (error : Failure)
deriving DecidableEq

structure Operation where
  call : Call
  point : Point
deriving DecidableEq

/-- Where the body of `refresh` waits: for `/auth/refresh`, in a pause, or for
    `/auth/session` in a turn of the loop. -/
inductive RefreshPoint where
  | sent
  | paused (i : Nat) (error : AuthError)
  | session (i : Nat) (error : AuthError)
deriving DecidableEq

/-- The refresh behind `refreshPromise`; `caller` is the operation whose call of `refresh`
    it is, a name that the code has no use for. -/
structure Refresh where
  caller : Nat
  started : Nat
  point : RefreshPoint
deriving DecidableEq

/-- The operations are numbered in the order in which they were called. -/
structure State where
  user : Option AuthUser
  challenge : Option MfaChallenge
  generation : Nat
  refreshPromise : Option Refresh
  operations : List Operation

/-- The plugin on the client, with the user that the server rendered -/
def start (user : Option AuthUser) : State :=
  ⟨user, none, 0, none, []⟩

/-! ## The functions of the plugin -/

def State.apply (s : State) (user : AuthUser) : State :=
  { s with user := some user, challenge := none }

/-- A new generation, without a user -/
def State.signOut (s : State) : State :=
  { s with generation := s.generation + 1, user := none, challenge := none }

/-- The codes after which `raw` gives the session up -/
def sessionEnding : List Text :=
  [text "ACCESS_TOKEN_INVALID", text "ACCOUNT_SELF_DEACTIVATED", text "ACCOUNT_DISABLED",
    text "REFRESH_TOKEN_INVALID", text "REFRESH_TOKEN_EXPIRED", text "SESSION_REVOKED",
    text "REFRESH_TOKEN_REUSE_DETECTED"]

/-- `value || fallback` of a string -/
def orElse (value : Option Text) (fallback : Text) : Text :=
  match value with
  | some t => if t.isEmpty then fallback else t
  | none => fallback

/-- The error that `raw` throws for a response with an error status -/
def Response.error (response : Response) : AuthError where
  message := orElse response.message
    (text "Bitte prüfen Sie Ihre Eingaben oder versuchen Sie es später erneut.")
  code := orElse response.code (text "REQUEST_FAILED")
  status := response.status

/-- What `raw` does with its answer; `none` is an answer that never arrived. -/
def State.raw (s : State) : Option Response → Except Failure Body × State
  | none => (.error .other, s)
  | some response =>
      if 400 ≤ response.status then
        (.error (.auth response.error),
          if sessionEnding.contains (orElse response.code []) then s.signOut else s)
      else (.ok response.body, s)

def State.move (s : State) (index : Nat) (point : Point) : State :=
  { s with operations := s.operations.modify index fun operation => { operation with point } }

/-- A call of `refresh`: a refresh in flight is shared. -/
def State.refresh (s : State) (caller : Nat) : State :=
  match s.refreshPromise with
  | some _ => s
  | none => { s with refreshPromise := some ⟨caller, s.generation, .sent⟩ }

def Failure.hasStatus (failure : Failure) (statuses : List Nat) : Bool :=
  match failure with
  | .auth error => statuses.contains error.status
  | .other => false

/-- How an operation that waits for the refresh goes on -/
def Operation.afterRefresh (outcome : Except Failure Bool) (operation : Operation) : Operation :=
  match operation.point with
  | .refreshing error =>
      match operation.call, outcome with
      | .load, .ok _ => { operation with point := .resolved }
      | .load, .error failure =>
          if failure.hasStatus [401, 403] then { operation with point := .resolved }
          else { operation with point := .rejected failure }
      | _, .ok true => { operation with point := .resent }
      | _, .ok false => { operation with point := .rejected error }
      | _, .error failure => { operation with point := .rejected failure }
  | _ => operation

/-- A `load` that waits for the refresh -/
def Operation.loading (operation : Operation) : Bool :=
  match operation.call, operation.point with
  | .load, .refreshing _ => true
  | _, _ => false

/-- The promise of the refresh settles, and all that waited for it goes on. -/
def State.settle (s : State) (outcome : Except Failure Bool) : State :=
  { s with
    refreshPromise := none
    operations := s.operations.map (Operation.afterRefresh outcome)
    user :=
      match outcome with
      | .ok _ => s.user
      | .error failure =>
          if failure.hasStatus [401, 403] && s.operations.any Operation.loading then none
          else s.user }

/-- The refresh throws. -/
def State.refreshFails (s : State) (r : Refresh) (failure : Failure) : State :=
  let s := if r.started = s.generation && failure.hasStatus [401, 403] then
      { s with user := none }
    else s
  s.settle (.error failure)

/-- The turn of the loop is over; the next one begins with a pause. -/
def State.retry (s : State) (r : Refresh) (i : Nat) (error : AuthError) : State :=
  if i < 5 then { s with refreshPromise := some { r with point := .paused i error } }
  else s.refreshFails r (.auth error)

/-- The refresh has its answer. -/
def State.refreshed (s : State) (r : Refresh) (response : Option Response) : State :=
  match r.point with
  | .sent =>
      match s.raw response with
      | (.ok body, s) =>
          if r.started ≠ s.generation then s.settle (.ok false)
          else
            match body with
            | .authenticated user => (s.apply user).settle (.ok true)
            | _ => s.refreshFails r .other
      | (.error failure, s) =>
          match failure with
          | .auth error =>
              if error.code = text "REFRESH_ALREADY_ROTATED" then s.retry r 0 error
              else s.refreshFails r failure
          | .other => s.refreshFails r failure
  | .session i error =>
      match s.raw response with
      | (.ok body, s) =>
          if r.started ≠ s.generation then s.settle (.ok false)
          else
            match body with
            | .authenticated user => (s.apply user).settle (.ok true)
            -- what reading the body throws is caught with the errors of the lookup
            | _ => s.retry r (i + 1) error
      | (.error _, s) => s.retry r (i + 1) error
  | .paused .. => s

/-- A pause of the refresh is over. -/
def State.elapsed (s : State) (r : Refresh) : State :=
  match r.point with
  | .paused i error => { s with refreshPromise := some { r with point := .session i error } }
  | _ => s

/-- `request` resolves, and with it the `logout` that it is part of. -/
def State.requested (s : State) (index : Nat) (call : Call) : State :=
  match call with
  | .logout => s.signOut.move index .resolved
  | _ => s.move index .resolved

def Failure.refreshable : Failure → Bool
  | .auth error => [text "AUTH_REQUIRED", text "ACCESS_TOKEN_EXPIRED"].contains error.code
  | .other => false

def State.requestAnswered (s : State) (index : Nat) (call : Call) (response : Option Response) :
    State :=
  match s.raw response with
  | (.ok _, s) => s.requested index call
  | (.error failure, s) =>
      if failure.refreshable then (s.refresh index).move index (.refreshing failure)
      else s.move index (.rejected failure)

def State.resentAnswered (s : State) (index : Nat) (call : Call) (response : Option Response) :
    State :=
  match s.raw response with
  | (.ok _, s) => s.requested index call
  | (.error failure, s) => s.move index (.rejected failure)

def State.loadAnswered (s : State) (index : Nat) (response : Option Response) : State :=
  match s.raw response with
  | (.ok body, s) =>
      match body with
      | .user value => (s.apply value).move index .resolved
      | _ => s.move index (.rejected .other)
  | (.error failure, s) =>
      if failure.hasStatus [401] then (s.refresh index).move index (.refreshing failure)
      else if failure.hasStatus [403] then { s with user := none }.move index .resolved
      else s.move index (.rejected failure)

def State.loginAnswered (s : State) (index : Nat) (response : Option Response) : State :=
  match s.raw response with
  | (.ok body, s) =>
      let s := { s with generation := s.generation + 1 }
      match body with
      | .mfa_required challenge =>
          { s with user := none, challenge := some challenge }.move index .resolved
      | .authenticated user => (s.apply user).move index .resolved
      | _ => s.move index (.rejected .other)
  | (.error failure, s) => s.move index (.rejected failure)

def State.answered (s : State) (index : Nat) (response : Option Response) (operation : Operation) :
    State :=
  match operation.call, operation.point with
  | .login, .sent => s.loginAnswered index response
  | .load, .sent => s.loadAnswered index response
  | .login, _ | .load, _ => s
  | call, .sent => s.requestAnswered index call response
  | call, .resent => s.resentAnswered index call response
  | _, _ => s

/-! ## Interleavings -/

inductive Event where
  | call (call : Call)
  | answer (index : Nat) (response : Option Response)
  | refreshAnswer (response : Option Response)
  | elapse

/-- An event that nothing waits for changes nothing. -/
def step (s : State) : Event → State
  | .call call => { s with operations := s.operations ++ [⟨call, .sent⟩] }
  | .answer index response =>
      match s.operations[index]? with
      | some operation => s.answered index response operation
      | none => s
  | .refreshAnswer response =>
      match s.refreshPromise with
      | some r => s.refreshed r response
      | none => s
  | .elapse =>
      match s.refreshPromise with
      | some r => s.elapsed r
      | none => s

end PackageRegistry.Browser
