import PackageRegistry.Accounts.Account
import PackageRegistry.Auth.Rotation

/-! # When and how a user has signed in

The claims `auth_time` and `amr` of access and refresh tokens. A refresh reads them from the
token that it is given and writes them into both new ones. Signing and checking signatures
is left to the JWT library.
-/

namespace PackageRegistry.Auth

/-- The payload of a token -/
abbrev Claims := List (Text × Json)

/-- What the code uses of PyJWT and of the built-in functions. -/
structure Jwt where
  encode : Claims → Text
  /-- `jwt.decode` at a time: signature, lifetime, issuer, audience and required claims -/
  decode : Time → Text → Except JwtError Claims
  /-- `str` of what is no string -/
  str : Json → Text
  /-- `int` of a string or a float, if it does not raise -/
  int : Json → Option Int

/-- A token that passes has the payload that was signed. -/
def Jwt.Signs (jwt : Jwt) : Prop :=
  ∀ now payload payload', jwt.decode now (jwt.encode payload) = .ok payload' → payload' = payload

structure TokenSettings where
  jwt_issuer : Text
  jwt_audience : Text
  access_token_expire_minutes : Nat
  refresh_token_expire_days : Nat
  reauth_max_age_seconds : Nat

/-! ## Tokens -/

/-- `dict[key] = value` -/
def upsert : Claims → Text → Json → Claims
  | [], key, value => [(key, value)]
  | (name, old) :: rest, key, value =>
      if name = key then (key, value) :: rest else (name, old) :: upsert rest key value

/-- `dict.update` -/
def updated (dict extra : Claims) : Claims :=
  extra.foldl (fun dict entry => upsert dict entry.1 entry.2) dict

/-- What every token says. The times are in seconds. -/
def baseClaims (settings : TokenSettings) (subject : Text) (token_type : String)
    (expires_delta : Nat) (now : Time) (jti : Text) : Claims :=
  [(text "sub", .str subject), (text "type", .str (text token_type)), (text "iat", .int now),
    (text "exp", .int (now + expires_delta)), (text "jti", .str jti),
    (text "iss", .str settings.jwt_issuer), (text "aud", .str settings.jwt_audience)]

/-- The payload that `create_jwt` signs -/
def create_jwt (settings : TokenSettings) (subject : Text) (token_type : String)
    (expires_delta : Nat) (extra : Claims) (now : Time) (jti : Text) : Claims :=
  updated (baseClaims settings subject token_type expires_delta now jti) extra

def decode_jwt (jwt : Jwt) (now : Time) (token : Text) (expected_type : String) :
    Except JwtError Claims :=
  match jwt.decode now token with
  | .error e => .error e
  | .ok payload =>
      match payload.lookup (text "type") with
      | some (.str token_type) =>
          if token_type = text expected_type then .ok payload else .error .invalid
      | _ => .error .invalid

/-- How a user has authenticated, as far as the tokens tell. -/
structure Authentication where
  auth_time : Option Int
  amr : Option (List Text)
  deriving DecidableEq

/-- `{"auth_time": authenticated_at} if authenticated_at else {}` -/
def timeClaim : Option Int → Claims
  | none => []
  | some seconds => if seconds = 0 then [] else [(text "auth_time", .int seconds)]

/-- `if amr: authentication_claim["amr"] = amr` -/
def amrClaim : Option (List Text) → Claims
  | none | some [] => []
  | some methods => [(text "amr", .arr (methods.map .str))]

def authentication_claim (given : Authentication) : Claims :=
  timeClaim given.auth_time ++ amrClaim given.amr

/-- What one call of `create_session_record` reads of the user, and what it draws. -/
structure Minting where
  email : Text
  is_superuser : Bool
  access_jti : Text
  access_now : Time
  refresh_jti : Text
  refresh_now : Time
  expires_at : Time

def accessPayload (settings : TokenSettings) (user_id : UserId) (given : Authentication)
    (m : Minting) : Claims :=
  create_jwt settings user_id "access" (settings.access_token_expire_minutes * 60)
    ([(text "email", .str m.email),
      (text "role", .str (if m.is_superuser then text "superuser" else text "user"))] ++
      authentication_claim given) m.access_now m.access_jti

def refreshPayload (settings : TokenSettings) (user_id : UserId) (given : Authentication)
    (m : Minting) : Claims :=
  create_jwt settings user_id "refresh" (settings.refresh_token_expire_days * 86400)
    (authentication_claim given) m.refresh_now m.refresh_jti

/-- `isinstance(value, int)`, and then its value: a `bool` is an `int`. -/
def asInt : Json → Option Int
  | .int n => some n
  | .bool b => some (if b then 1 else 0)
  | _ => none

/-- `str(value)` -/
def Jwt.strOf (jwt : Jwt) : Json → Text
  | .str s => s
  | value => jwt.str value

/-- `[str(value) for value in values] if isinstance(values, list) else None` -/
def Jwt.methods (jwt : Jwt) : Json → Option (List Text)
  | .arr values => some (values.map jwt.strOf)
  | _ => none

/-- What `refresh_session` takes over from the payload of the old token. -/
def Jwt.carried (jwt : Jwt) (payload : Claims) : Authentication where
  auth_time := (payload.lookup (text "auth_time")).bind asInt
  amr := (payload.lookup (text "amr")).bind jwt.methods

/-! ## Recent authentication -/

def mfa_reauth_required : AuthError :=
  auth_error "MFA_REAUTH_REQUIRED" "Bitte melden Sie sich erneut an, um fortzufahren." 401

/-- `cookie` is the access cookie. The clock is read twice, in whole seconds. -/
def require_recent_auth (jwt : Jwt) (settings : TokenSettings) (cookie : Option Text)
    (decoded_at now : Time) : Except AuthError Unit :=
  match decode_jwt jwt decoded_at (cookie.getD []) "access" with
  | .error _ => .error mfa_reauth_required
  | .ok payload =>
      match (payload.lookup (text "auth_time")).bind asInt with
      | none => .error mfa_reauth_required
      | some auth_time =>
          if (now : Int) - auth_time > settings.reauth_max_age_seconds then
            .error mfa_reauth_required
          else .ok ()

/-- `int(value)` -/
def Jwt.intOf (jwt : Jwt) : Json → Option Int
  | .int n => some n
  | .bool b => some (if b then 1 else 0)
  | .null | .arr _ | .obj _ => none
  | value => jwt.int value

/-- The time that `datetime.fromtimestamp` makes of the claim, up to the end of the year 9999.
A time before the epoch, which no token holds, is left out. -/
def _access_authenticated_at (jwt : Jwt) (cookie : Option Text) (now : Time) : Option Time :=
  match Accounts.truthy cookie with
  | none => none
  | some token =>
      match decode_jwt jwt now token "access" with
      | .error _ => none
      | .ok payload =>
          ((payload.lookup (text "auth_time")).bind jwt.intOf).bind fun seconds =>
            if 0 ≤ seconds ∧ seconds ≤ 253402300799 then some seconds.toNat else none

/-! ## Claims of the tokens -/

theorem lookup_upsert (dict : Claims) (key other : Text) (value : Json) :
    (upsert dict key value).lookup other =
      if other = key then some value else dict.lookup other := by
  induction dict with
  | nil => rw [upsert, lookup_cons]
  | cons entry rest ih =>
      obtain ⟨name, old⟩ := entry
      rw [upsert, lookup_cons]
      split
      · rename_i here
        rw [lookup_cons, here]
        split <;> rfl
      · rename_i elsewhere
        rw [lookup_cons, ih]
        split
        · rename_i asked
          rw [if_neg (asked ▸ elsewhere)]
        · rfl

theorem lookup_updated (dict extra : Claims) (key : Text) (distinct : (extra.map (·.1)).Nodup) :
    (updated dict extra).lookup key = (extra.lookup key).or (dict.lookup key) := by
  induction extra generalizing dict with
  | nil => rfl
  | cons entry rest ih =>
      obtain ⟨name, value⟩ := entry
      rw [List.map_cons, List.nodup_cons] at distinct
      have split : updated dict ((name, value) :: rest) = updated (upsert dict name value) rest := rfl
      rw [split, ih _ distinct.2, lookup_upsert, lookup_cons]
      split
      · rename_i here
        have absent : rest.lookup key = none := by
          rw [List.lookup_eq_none_iff]
          intro other mem
          rw [bne_iff_ne, here]
          intro same
          exact distinct.1 (List.mem_map.mpr ⟨other, mem, same.symm⟩)
        rw [absent]
        rfl
      · rfl

/-- What is left of a way of authentication when falsy values are left out -/
def Authentication.stated (given : Authentication) : Authentication where
  auth_time := given.auth_time.filter (· ≠ 0)
  amr := given.amr.filter (· ≠ [])

@[simp] theorem Authentication.stated_stated (given : Authentication) :
    given.stated.stated = given.stated := by
  simp [Authentication.stated, Option.filter_filter]

/-- The two claims of a payload are those of this way of authentication. -/
structure States (payload : Claims) (given : Authentication) : Prop where
  auth_time : payload.lookup (text "auth_time") = given.stated.auth_time.map .int
  amr : payload.lookup (text "amr") = given.stated.amr.map fun methods => .arr (methods.map .str)

theorem lookup_append (dict extra : Claims) (key : Text) :
    (dict ++ extra).lookup key = (dict.lookup key).or (extra.lookup key) := by
  induction dict with
  | nil => rfl
  | cons entry rest ih =>
      obtain ⟨name, value⟩ := entry
      rw [List.cons_append, lookup_cons, lookup_cons, ih]
      split <;> rfl

theorem lookup_absent {β : Type} {dict : List (Text × β)} {key : Text} (absent : key ∉ dict.map (·.1)) :
    dict.lookup key = none := by
  rw [List.lookup_eq_none_iff]
  intro entry mem
  rw [bne_iff_ne]
  intro same
  exact absent (List.mem_map.mpr ⟨entry, mem, same.symm⟩)

theorem timeClaim_keys (auth_time : Option Int) :
    ((timeClaim auth_time).map (·.1)).Sublist [text "auth_time"] := by
  cases auth_time with
  | none => exact List.nil_sublist _
  | some seconds =>
      rw [timeClaim]
      split
      · exact List.nil_sublist _
      · exact List.Sublist.refl _

theorem amrClaim_keys (amr : Option (List Text)) :
    ((amrClaim amr).map (·.1)).Sublist [text "amr"] := by
  cases amr with
  | none => exact List.nil_sublist _
  | some methods =>
      cases methods with
      | nil => exact List.nil_sublist _
      | cons method more => exact List.Sublist.refl _

theorem authentication_claim_keys (given : Authentication) :
    ((authentication_claim given).map (·.1)).Sublist [text "auth_time", text "amr"] := by
  rw [authentication_claim, List.map_append]
  exact (timeClaim_keys given.auth_time).append (amrClaim_keys given.amr)

theorem timeClaim_time (auth_time : Option Int) :
    (timeClaim auth_time).lookup (text "auth_time") = (auth_time.filter (· ≠ 0)).map .int := by
  cases auth_time with
  | none => rfl
  | some seconds =>
      rw [timeClaim]
      by_cases zero : seconds = 0
      · simp [zero]
      · simp [zero]

theorem amrClaim_amr (amr : Option (List Text)) :
    (amrClaim amr).lookup (text "amr") =
      (amr.filter (· ≠ [])).map fun methods => .arr (methods.map .str) := by
  cases amr with
  | none => rfl
  | some methods =>
      cases methods with
      | nil => rfl
      | cons method more => simp [amrClaim]

theorem states_claim (given : Authentication) : States (authentication_claim given) given where
  auth_time := by
    have elsewhere : (amrClaim given.amr).lookup (text "auth_time") = none :=
      lookup_absent fun mem => absurd ((amrClaim_keys _).subset mem) (by decide)
    rw [authentication_claim, lookup_append, elsewhere, Option.or_none, timeClaim_time]
    rfl
  amr := by
    have elsewhere : (timeClaim given.auth_time).lookup (text "amr") = none :=
      lookup_absent fun mem => absurd ((timeClaim_keys _).subset mem) (by decide)
    rw [authentication_claim, lookup_append, elsewhere, Option.none_or, amrClaim_amr]
    rfl

/-- The keys that every token has -/
def usualKeys : List Text :=
  [text "sub", text "type", text "iat", text "exp", text "jti", text "iss", text "aud"]

section

variable {settings : TokenSettings} {subject jti : Text} {token_type : String}
  {expires_delta : Nat} {extra : Claims} {now : Time}

/-- Claims of its own come from the extra ones. -/
theorem create_jwt_extra (distinct : (extra.map (·.1)).Nodup) {key : Text}
    (own : key ∉ (baseClaims settings subject token_type expires_delta now jti).map (·.1)) :
    (create_jwt settings subject token_type expires_delta extra now jti).lookup key =
      extra.lookup key := by
  rw [create_jwt, lookup_updated _ _ _ distinct, lookup_absent own, Option.or_none]

/-- The other claims are the usual ones. -/
theorem create_jwt_base (distinct : (extra.map (·.1)).Nodup) {key : Text}
    (other : key ∉ extra.map (·.1)) :
    (create_jwt settings subject token_type expires_delta extra now jti).lookup key =
      (baseClaims settings subject token_type expires_delta now jti).lookup key := by
  rw [create_jwt, lookup_updated _ _ _ distinct, lookup_absent other, Option.none_or]

theorem create_jwt_states (distinct : (extra.map (·.1)).Nodup) {given : Authentication}
    (states : States extra given) :
    States (create_jwt settings subject token_type expires_delta extra now jti) given where
  auth_time := by
    rw [create_jwt_extra distinct (show text "auth_time" ∉ usualKeys by decide), states.auth_time]
  amr := by
    rw [create_jwt_extra distinct (show text "amr" ∉ usualKeys by decide), states.amr]

end

section

variable (settings : TokenSettings) (user_id : UserId) (given : Authentication) (m : Minting)

theorem refresh_keys : ((authentication_claim given).map (·.1)).Nodup :=
  (authentication_claim_keys given).nodup (by decide)

/-- The claims of an access token beyond the usual ones -/
theorem access_keys (email role : Json) :
    ((([(text "email", email), (text "role", role)] : Claims) ++
      authentication_claim given).map (·.1)).Sublist
        [text "email", text "role", text "auth_time", text "amr"] := by
  rw [List.map_append]
  exact ((List.Sublist.refl [text "email", text "role"]).append (authentication_claim_keys given))

theorem refreshPayload_states : States (refreshPayload settings user_id given m) given :=
  create_jwt_states (refresh_keys given) (states_claim given)

theorem accessPayload_states : States (accessPayload settings user_id given m) given := by
  refine create_jwt_states ((access_keys given _ _).nodup (by decide)) ?_
  have own := states_claim given
  constructor
  · have first : text "auth_time" ∉ [text "email", text "role"] := by decide
    rw [lookup_append, lookup_absent first, Option.none_or, own.auth_time]
  · have first : text "amr" ∉ [text "email", text "role"] := by decide
    rw [lookup_append, lookup_absent first, Option.none_or, own.amr]

/-- A usual claim of a refresh token -/
theorem refreshPayload_base {key : Text} (usual : key ∈ usualKeys) :
    (refreshPayload settings user_id given m).lookup key =
      (baseClaims settings user_id "refresh" (settings.refresh_token_expire_days * 86400)
        m.refresh_now m.refresh_jti).lookup key := by
  refine create_jwt_base (refresh_keys given) fun mem => ?_
  have special := (authentication_claim_keys given).subset mem
  have apart : ∀ key ∈ usualKeys, key ∉ [text "auth_time", text "amr"] := by decide
  exact apart key usual special

theorem accessPayload_type :
    (accessPayload settings user_id given m).lookup (text "type") = some (.str (text "access")) := by
  refine (create_jwt_base ((access_keys given _ _).nodup (by decide)) fun mem => ?_).trans rfl
  have special := (access_keys given _ _).subset mem
  exact absurd special (by decide)

end

/-- What a refresh takes over from a token is what the token states. -/
theorem States.carried {payload : Claims} {given : Authentication} (states : States payload given)
    (jwt : Jwt) : jwt.carried payload = given.stated := by
  have texts : ∀ methods : List Text, (methods.map Json.str).map jwt.strOf = methods := by
    intro methods
    rw [List.map_map]
    exact List.map_id methods
  have time : (given.stated.auth_time.map Json.int).bind asInt = given.stated.auth_time := by
    cases given.stated.auth_time <;> rfl
  have amr : (given.stated.amr.map fun methods => Json.arr (methods.map .str)).bind jwt.methods =
      given.stated.amr := by
    cases given.stated.amr with
    | none => rfl
    | some methods => exact congrArg some (texts methods)
  rw [Jwt.carried, states.auth_time, states.amr, time, amr]

end PackageRegistry.Auth
