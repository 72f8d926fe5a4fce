import Mathlib.Data.Rat.Floor
import PackageRegistry.Lib.Base64
import PackageRegistry.Lib.JsonCompact

/-! # The cookie of an OAuth flow

`encode_oauth_flow` and `decode_oauth_flow`, and the path that both of them sanitise.
-/

namespace PackageRegistry.Auth

structure OAuthFlowState where
  state : Text
  mode : Text
  redirect_path : Text
  user_id : Option Text
  deriving DecidableEq

/-- `path` may be missing. -/
def safe_redirect_path (path : Option Text) : Text :=
  match path with
  | none => text "/"
  | some path =>
      if path.isEmpty then text "/"
      else
        let candidate := Text.strip path
        if !Text.startsWith (text "/") candidate || Text.startsWith (text "//") candidate ||
            candidate.contains (.ofChar '\\') || candidate.any (fun c => c.val < 32) then
          text "/"
        else candidate

/-- HMAC-SHA256 under `oauth_state_secret`, in hexadecimal digits -/
structure Hmac where
  hexdigest : ByteArray → Text
  hexadecimal : ∀ bytes, ∀ c ∈ hexdigest bytes, c.isHexLower = true

/-- What `time.time()` returns: a finite float that is not negative -/
structure ClockReading where
  time : ℚ
  nonneg : 0 ≤ time
  finite : time < ((2 ^ 1024 - 2 ^ 970 : Nat) : ℚ)

/-! ## Encoding -/

def flowPayload (flow : OAuthFlowState) (now : ClockReading) : List (Text × Json) :=
  [(text "state", .str flow.state), (text "mode", .str flow.mode),
    (text "redirect_path", .str (safe_redirect_path (some flow.redirect_path))),
    (text "user_id", (flow.user_id.map Json.str).getD .null),
    (text "issued_at", .int ⌊now.time⌋)]

section

variable (hmac : Hmac)

/-- The signature of a text. A surrogate raises a `ValueError`. -/
def signature (encoded : Text) : Option Text :=
  (Text.encode encoded).map hmac.hexdigest

def encode_oauth_flow (flow : OAuthFlowState) (now : ClockReading) : Option Text := do
  let payload ← Text.encode (Json.dumps_compact (.obj (flowPayload flow now)))
  let encoded := Base64.stripPadding (Base64.urlsafe_b64encode payload.data.toList)
  let signed ← signature hmac encoded
  some (encoded ++ text "." ++ signed)

end

/-! ## Decoding -/

inductive Encoding where
  | utf8
  | utf8_sig
  | utf16
  | utf16_be
  | utf16_le
  | utf32
  | utf32_be
  | utf32_le

/-- `json.detect_encoding` -/
def detect_encoding (b : List UInt8) : Encoding :=
  if [0, 0, 0xfe, 0xff] <+: b ∨ [0xff, 0xfe, 0, 0] <+: b then .utf32
  else if [0xfe, 0xff] <+: b ∨ [0xff, 0xfe] <+: b then .utf16
  else if [0xef, 0xbb, 0xbf] <+: b then .utf8_sig
  else
    match b with
    | b₀ :: b₁ :: b₂ :: b₃ :: _ =>
        if b₀ = 0 then (if b₁ ≠ 0 then .utf16_be else .utf32_be)
        else if b₁ = 0 then (if b₂ ≠ 0 ∨ b₃ ≠ 0 then .utf16_le else .utf32_le)
        else .utf8
    | [b₀, b₁] => if b₀ = 0 then .utf16_be else if b₁ = 0 then .utf16_le else .utf8
    | _ => .utf8

/-- `bytes.decode(encoding, "surrogatepass")` -/
structure Codecs where
  decode : Encoding → ByteArray → Option Text
  utf8 : ∀ {t : Text} {bytes : ByteArray}, Text.encode t = some bytes → decode .utf8 bytes = some t

inductive FlowError where
  | value_error
  | type_error
  | attribute_error
  | overflow_error

/-- `isinstance(issued_at, int)`: a bool is one. -/
def issuedAt : Option Json → Option Int
  | some (.int i) => some i
  | some (.bool b) => some (if b then 1 else 0)
  | _ => none

/-- `0 <= time.time() - issued_at <= 600` -/
def isCurrent (now : ClockReading) (issued_at : Int) : Bool :=
  decide (0 ≤ now.time - issued_at) && decide (now.time - issued_at ≤ 600)

/-- `mode not in {"login", "link"}`, which raises where the mode has no hash -/
def isMode : Option Json → Except FlowError Bool
  | some (.str mode) => .ok (mode == text "login" || mode == text "link")
  | some (.arr _) | some (.obj _) => .error .type_error
  | _ => .ok false

/-- What follows once the payload is known -/
def flowOfPayload (payload : Json) (now : ClockReading) :
    Except FlowError (Option OAuthFlowState) :=
  match payload with
  | .obj fields =>
      match issuedAt (fields.lookup (text "issued_at")) with
      | none => .ok none
      | some issued_at =>
          if 2 ^ 1024 - 2 ^ 970 ≤ issued_at.natAbs then .error .overflow_error
          else if !isCurrent now issued_at then .ok none
          else
            match fields.lookup (text "state") with
            | some (.str state) =>
                match isMode (fields.lookup (text "mode")) with
                | .error e => .error e
                | .ok false => .ok none
                | .ok true =>
                    match fields.lookup (text "redirect_path") with
                    | some (.str redirect_path) =>
                        flowOfFields state (fields.lookup (text "mode")) redirect_path
                          (fields.lookup (text "user_id"))
                    | _ => .ok none
            | _ => .ok none
  | _ => .error .attribute_error
where
  /-- What follows once all but the user is known to be well-formed -/
  flowOfFields (state : Text) (mode : Option Json) (redirect_path : Text) (user_id : Option Json) :
      Except FlowError (Option OAuthFlowState) :=
    match mode, user_id with
    | some (.str mode), some (.str user_id) =>
        if mode = text "link" ∧ user_id = [] then .ok none
        else .ok (some ⟨state, mode, safe_redirect_path (some redirect_path), some user_id⟩)
    | some (.str mode), none | some (.str mode), some .null =>
        if mode = text "link" then .ok none
        else .ok (some ⟨state, mode, safe_redirect_path (some redirect_path), none⟩)
    | _, _ => .ok none

section

variable (hmac : Hmac) (codecs : Codecs)

/-- `json.loads(base64.urlsafe_b64decode(encoded + padding))` -/
def payloadOf (encoded : Text) : Option Json := do
  let raw ← Base64.urlsafe_b64decode (encoded ++ Base64.padding encoded)
  let decoded ← codecs.decode (detect_encoding raw.data.toList) raw
  Json.loadsPlain decoded

/-- What is tried -/
def tryDecode (value : Text) (now : ClockReading) : Except FlowError (Option OAuthFlowState) :=
  match Text.rpartition (.ofChar '.') value with
  | (none, _) => .error .value_error
  | (some encoded, presented) =>
      match signature hmac encoded with
      | none => .error .value_error
      | some expected =>
          -- `compare_digest` takes only ASCII.
          if !(presented.all CodePoint.isAscii && expected.all CodePoint.isAscii) then
            .error .type_error
          else if presented ≠ expected then .ok none
          else
            match payloadOf codecs encoded with
            | none => .error .value_error
            | some payload => flowOfPayload payload now

/-- The two exceptions that are caught; the others leave the function. -/
def decode_oauth_flow (value : Option Text) (now : ClockReading) :
    Except FlowError (Option OAuthFlowState) :=
  match value with
  | none => .ok none
  | some value =>
      if value.isEmpty then .ok none
      else
        match tryDecode hmac codecs value now with
        | .error .value_error | .error .type_error => .ok none
        | result => result

end

/-! ## The path -/

/-- A path on this site -/
structure LocalPath (path : Text) : Prop where
  slash : Text.startsWith (text "/") path = true
  noHost : Text.startsWith (text "//") path = false
  noBackslash : CodePoint.ofChar '\\' ∉ path
  printable : ∀ c ∈ path, 32 ≤ c.val

theorem localPath_root : LocalPath (text "/") := by
  refine ⟨by decide, by decide, by decide, fun c mem => ?_⟩
  rw [List.mem_singleton.mp (show c ∈ [CodePoint.ofChar '/'] from mem)]
  decide

/-- The path is the root, or the stripped candidate that has passed the checks. -/
theorem safe_redirect_path_cases (path : Option Text) :
    safe_redirect_path path = text "/" ∨
      ∃ given, safe_redirect_path path = Text.strip given ∧ path = some given ∧
        LocalPath (Text.strip given) := by
  cases path with
  | none => exact .inl rfl
  | some path =>
      rw [safe_redirect_path]
      split
      · exact .inl rfl
      · dsimp only
        split
        · exact .inl rfl
        · rename_i checked
          simp only [Bool.or_eq_true, not_or, Bool.not_eq_true, Bool.not_eq_false,
            Bool.not_eq_eq_eq_not, Bool.not_true, List.any_eq_false, decide_eq_true_eq, not_lt]
            at checked
          obtain ⟨⟨⟨slash, noHost⟩, noBackslash⟩, printable⟩ := checked
          refine .inr ⟨path, rfl, rfl, slash, noHost, ?_, printable⟩
          intro mem
          rw [List.contains_iff_mem.mpr mem] at noBackslash
          cases noBackslash

theorem localPath_safe (path : Option Text) : LocalPath (safe_redirect_path path) := by
  rcases safe_redirect_path_cases path with root | ⟨given, same, -, isLocal⟩
  · rw [root]
    exact localPath_root
  · rw [same]
    exact isLocal

/-- A stripped local path passes the checks. -/
theorem safe_redirect_path_local {path : Text} (isLocal : LocalPath path)
    (stripped : Text.strip path = path) : safe_redirect_path (some path) = path := by
  have nonempty : path.isEmpty = false := by
    cases path with
    | nil => exact absurd isLocal.slash (by decide)
    | cons => rfl
  have noBackslash : path.contains (.ofChar '\\') = false := by
    rw [Bool.eq_false_iff]
    intro found
    exact isLocal.noBackslash (List.contains_iff_mem.mp found)
  have printable : path.any (fun c => c.val < 32) = false := by
    rw [List.any_eq_false]
    intro c mem
    simpa using isLocal.printable c mem
  simp only [safe_redirect_path, nonempty, stripped, isLocal.slash, isLocal.noHost, noBackslash,
    printable]
  rfl

theorem safe_redirect_path_idem (path : Option Text) :
    safe_redirect_path (some (safe_redirect_path path)) = safe_redirect_path path := by
  refine safe_redirect_path_local (localPath_safe path) ?_
  rcases safe_redirect_path_cases path with root | ⟨given, same, -, -⟩
  · rw [root]
    decide
  · rw [same, Text.strip_strip]

theorem encodable_safe {path : Text} (scalar : Text.Encodable path) :
    Text.Encodable (safe_redirect_path (some path)) := by
  rcases safe_redirect_path_cases (some path) with root | ⟨given, same, here, -⟩
  · rw [root]
    decide
  · cases here
    rw [same]
    exact fun c mem => scalar c (Text.mem_of_mem_strip mem)

/-! ## What is encoded is decoded -/

/-- A flow of texts without surrogates -/
structure ScalarFlow extends OAuthFlowState where
  scalar_state : Text.Encodable state
  scalar_mode : Text.Encodable mode
  scalar_path : Text.Encodable redirect_path
  scalar_user : ∀ id ∈ user_id, Text.Encodable id

section

variable {hmac : Hmac} {codecs : Codecs}

theorem atoms_payload (flow : OAuthFlowState) (now : ClockReading) :
    ∀ f ∈ flowPayload flow now, Json.Atom f.2 := by
  have issued : ⌊now.time⌋ = (⌊now.time⌋.toNat : Int) :=
    (Int.toNat_of_nonneg (Int.floor_nonneg.mpr now.nonneg)).symm
  simp only [flowPayload, List.forall_mem_cons]
  refine ⟨.str _, .str _, .str _, ?_, ?_, nofun⟩
  · cases flow.user_id with
    | none => exact .null
    | some id => exact .str id
  · rw [issued]
    exact .nat _

theorem scalars_payload (flow : ScalarFlow) (now : ClockReading) :
    ∀ f ∈ flowPayload flow.toOAuthFlowState now,
      Text.Encodable f.1 ∧ ∀ s ∈ f.2.strings, Text.Encodable s := by
  have one : ∀ {s : Text}, Text.Encodable s → ∀ s' ∈ (Json.str s).strings, Text.Encodable s' := by
    intro s scalar s' mem
    rwa [List.mem_singleton.mp mem]
  simp only [flowPayload, List.forall_mem_cons]
  refine ⟨⟨by decide, one flow.scalar_state⟩, ⟨by decide, one flow.scalar_mode⟩,
    ⟨by decide, one (encodable_safe flow.scalar_path)⟩, ⟨by decide, ?_⟩, ⟨by decide, nofun⟩, nofun⟩
  cases user : flow.user_id with
  | none => exact nofun
  | some id => exact one (flow.scalar_user id user)

theorem distinct_payload (flow : OAuthFlowState) (now : ClockReading) :
    ((flowPayload flow now).map (·.1)).Nodup := by
  have names : (flowPayload flow now).map (·.1) = [text "state", text "mode",
    text "redirect_path", text "user_id", text "issued_at"] := rfl
  rw [names]
  decide

theorem flowPayload_ne_nil (flow : OAuthFlowState) (now : ClockReading) :
    flowPayload flow now ≠ [] := nofun

/-- A field of the payload that is written -/
theorem lookup_payload (flow : OAuthFlowState) (now : ClockReading) (key : Text) :
    (Json.byKey (Json.sortFields (flowPayload flow now))).lookup key =
      (flowPayload flow now).lookup key := by
  rw [Json.lookup_sorted (distinct_payload flow now)]
  cases found : (flowPayload flow now).lookup key with
  | none => rfl
  | some v =>
      exact congrArg some (Json.sortKeys_atom (atoms_payload flow now _ (Json.mem_of_lookup found)))

theorem encodable_encoded (bytes : List UInt8) :
    Text.Encodable (Base64.stripPadding (Base64.urlsafe_b64encode bytes)) :=
  Text.encodable_ascii fun c mem => by
    simpa [CodePoint.isAscii] using Base64.ascii_stripped bytes c mem

/-- The two parts of a cookie -/
theorem encode_oauth_flow_eq (hmac : Hmac) (flow : OAuthFlowState) (now : ClockReading) :
    ∃ bytes signed,
      Text.encode (Json.dumps_compact (.obj (flowPayload flow now))) = some bytes ∧
        signature hmac (Base64.stripPadding (Base64.urlsafe_b64encode bytes.data.toList)) =
          some signed ∧
        encode_oauth_flow hmac flow now =
          some (Base64.stripPadding (Base64.urlsafe_b64encode bytes.data.toList) ++
            .ofChar '.' :: signed) := by
  have payload : Text.Encodable (Json.dumps_compact (.obj (flowPayload flow now))) :=
    Text.encodable_ascii (Json.ascii_dumps (atoms_payload flow now))
  obtain ⟨bytes, encoded⟩ := Option.isSome_iff_exists.mp (Text.encode_isSome.mpr payload)
  obtain ⟨message, signable⟩ := Option.isSome_iff_exists.mp
    (Text.encode_isSome.mpr (encodable_encoded bytes.data.toList))
  have signed : signature hmac (Base64.stripPadding (Base64.urlsafe_b64encode bytes.data.toList)) =
      some (hmac.hexdigest message) := by
    rw [signature, signable, Option.map_some]
  refine ⟨bytes, hmac.hexdigest message, encoded, signed, ?_⟩
  rw [encode_oauth_flow]
  simp only [Option.bind_eq_bind, encoded, Option.bind_some, signed, Option.some.injEq]
  rw [List.append_assoc]
  rfl

/-- No byte order mark, and no zero among the first two bytes -/
theorem detect_encoding_object (rest : List UInt8) :
    detect_encoding (123 :: 34 :: rest) = .utf8 := by
  have first : (0 : UInt8) ≠ 123 ∧ (0xff : UInt8) ≠ 123 ∧ (0xfe : UInt8) ≠ 123 ∧
      (0xef : UInt8) ≠ 123 := by decide
  have nonzero : (123 : UInt8) ≠ 0 ∧ (34 : UInt8) ≠ 0 := by decide
  simp only [detect_encoding, List.cons_prefix_cons, first.1, first.2.1, first.2.2.1, first.2.2.2,
    false_and, or_self, if_false]
  match rest with
  | [] => rfl
  | [a] => rfl
  | a :: b :: more => simp only [nonzero.1, nonzero.2, if_false]

theorem payloadOf_encoded (flow : ScalarFlow) (now : ClockReading) {bytes : ByteArray}
    (encoded : Text.encode (Json.dumps_compact (.obj (flowPayload flow.toOAuthFlowState now))) =
      some bytes) :
    payloadOf codecs (Base64.stripPadding (Base64.urlsafe_b64encode bytes.data.toList)) =
      some (.obj (Json.byKey (Json.sortFields (flowPayload flow.toOAuthFlowState now)))) := by
  have flat : Json.Flat (flowPayload flow.toOAuthFlowState now) := fun f mem =>
    ⟨atoms_payload _ now f mem, scalars_payload flow now f mem⟩
  have read := Json.loadsPlain_dumps (flowPayload_ne_nil _ now) flat (distinct_payload _ now)
  have bytes_eq : (⟨bytes.data.toList.toArray⟩ : ByteArray) = bytes := rfl
  have decoded := codecs.utf8 encoded
  have detected : detect_encoding bytes.data.toList = .utf8 := by
    obtain ⟨rest, whole⟩ := Json.dumps_compact_head (flowPayload_ne_nil flow.toOAuthFlowState now)
    rw [whole] at encoded
    obtain ⟨tail, encodedTail, first⟩ := Text.encode_cons_ascii (by decide) encoded
    obtain ⟨tail', -, second⟩ := Text.encode_cons_ascii (by decide) encodedTail
    rw [first, second]
    exact detect_encoding_object _
  rw [payloadOf]
  simp only [Option.bind_eq_bind, Base64.urlsafe_b64decode_stripped, Option.bind_some, bytes_eq,
    detected, decoded, read]

/-! ## Decoding -/

theorem ascii_hexadecimal {t : Text} (hex : ∀ c ∈ t, c.isHexLower = true) :
    t.all CodePoint.isAscii = true ∧ CodePoint.ofChar '.' ∉ t := by
  constructor
  · refine List.all_eq_true.mpr fun c mem => ?_
    have digit := hex c mem
    simp only [CodePoint.isHexLower, Bool.or_eq_true, Bool.and_eq_true, decide_eq_true_eq,
      CodePoint.isDigit_iff, Fin.le_def, CodePoint.val_ofChar] at digit
    have letters : 'a'.toNat = 97 ∧ 'f'.toNat = 102 := by decide
    simp only [CodePoint.isAscii, decide_eq_true_eq]
    omega
  · intro mem
    exact absurd (hex _ mem) (by decide)

/-- A text with its own signature -/
theorem tryDecode_signed {encoded signed : Text} {payload : Json} (now : ClockReading)
    (genuine : signature hmac encoded = some signed)
    (read : payloadOf codecs encoded = some payload) :
    tryDecode hmac codecs (encoded ++ .ofChar '.' :: signed) now = flowOfPayload payload now := by
  obtain ⟨bytes, -, same⟩ := Option.map_eq_some_iff.mp genuine
  have hex : ∀ c ∈ signed, c.isHexLower = true := by
    rw [← same]
    exact hmac.hexadecimal bytes
  obtain ⟨ascii, noDot⟩ := ascii_hexadecimal hex
  rw [tryDecode, Text.rpartition_append encoded noDot]
  simp only [genuine, ascii, read, Bool.and_self, Bool.not_true, if_false, ne_eq, not_true_eq_false]
  rfl

/-- The whole seconds of a clock are within the range of floats. -/
theorem natAbs_floor_lt {x : ℚ} {n : Nat} (nonneg : 0 ≤ x) (small : x < n) : ⌊x⌋.natAbs < n := by
  have floor : ⌊x⌋ < (n : Int) := Int.floor_lt.mpr (by exact_mod_cast small)
  have := Int.floor_nonneg.mpr nonneg
  omega

/-- A cookie is read within ten minutes. -/
def Fresh (encoded_at now : ClockReading) : Prop :=
  0 ≤ now.time - ⌊encoded_at.time⌋ ∧ now.time - ⌊encoded_at.time⌋ ≤ 600

instance (encoded_at now : ClockReading) : Decidable (Fresh encoded_at now) :=
  inferInstanceAs (Decidable (_ ∧ _))

/-- A login, or a link for a user -/
def OAuthFlowState.Admitted (flow : OAuthFlowState) : Prop :=
  flow.mode = text "login" ∨ (flow.mode = text "link" ∧ flow.user_id.getD [] ≠ [])

instance (flow : OAuthFlowState) : Decidable flow.Admitted :=
  inferInstanceAs (Decidable (_ ∨ _))

def OAuthFlowState.sanitised (flow : OAuthFlowState) : OAuthFlowState :=
  { flow with redirect_path := safe_redirect_path (some flow.redirect_path) }

/-- The last checks, for a user as it is written -/
theorem flowOfFields_user (state mode redirect_path : Text) (user_id : Option Text) :
    flowOfPayload.flowOfFields state (some (.str mode)) redirect_path
        (some ((user_id.map Json.str).getD .null)) =
      .ok (if mode = text "link" ∧ user_id.getD [] = [] then none
        else some ⟨state, mode, safe_redirect_path (some redirect_path), user_id⟩) := by
  cases user_id with
  | none =>
      by_cases link : mode = text "link" <;> simp [flowOfPayload.flowOfFields, link]
  | some id =>
      by_cases refused : mode = text "link" ∧ id = [] <;>
        simp [flowOfPayload.flowOfFields, refused]

theorem isCurrent_iff (encoded_at now : ClockReading) :
    isCurrent now ⌊encoded_at.time⌋ = true ↔ Fresh encoded_at now := by
  rw [isCurrent, Bool.and_eq_true, decide_eq_true_eq, decide_eq_true_eq, Fresh]

theorem flowOfPayload_payload (flow : OAuthFlowState) (encoded_at now : ClockReading) :
    flowOfPayload (.obj (Json.byKey (Json.sortFields (flowPayload flow encoded_at)))) now =
      .ok (if Fresh encoded_at now ∧ flow.Admitted then some flow.sanitised else none) := by
  have issued_at : (flowPayload flow encoded_at).lookup (text "issued_at") =
      some (.int ⌊encoded_at.time⌋) := rfl
  have state : (flowPayload flow encoded_at).lookup (text "state") = some (.str flow.state) := rfl
  have mode : (flowPayload flow encoded_at).lookup (text "mode") = some (.str flow.mode) := rfl
  have redirect_path : (flowPayload flow encoded_at).lookup (text "redirect_path") =
      some (.str (safe_redirect_path (some flow.redirect_path))) := rfl
  have user_id : (flowPayload flow encoded_at).lookup (text "user_id") =
      some ((flow.user_id.map Json.str).getD .null) := rfl
  have inRange := natAbs_floor_lt encoded_at.nonneg encoded_at.finite
  rw [flowOfPayload]
  simp only [lookup_payload, issued_at, state, mode, redirect_path, user_id, issuedAt,
    if_neg (Nat.not_le.mpr inRange)]
  by_cases fresh : Fresh encoded_at now
  · rw [(isCurrent_iff encoded_at now).mpr fresh]
    by_cases known : (flow.mode == text "login" || flow.mode == text "link") = true
    · simp only [Bool.not_true, Bool.false_eq_true, if_false, isMode, known, flowOfFields_user,
        safe_redirect_path_idem]
      simp only [Bool.or_eq_true, beq_iff_eq] at known
      by_cases missing : flow.mode = text "link" ∧ flow.user_id.getD [] = []
      · have refused : ¬flow.Admitted := by
          rintro (login | ⟨-, user⟩)
          · exact absurd (login.symm.trans missing.1) (by decide)
          · exact user missing.2
        rw [if_pos missing, if_neg fun both => refused both.2]
      · have admitted : flow.Admitted := by
          rcases known with login | link
          · exact .inl login
          · exact .inr ⟨link, fun empty => missing ⟨link, empty⟩⟩
        rw [if_neg missing, if_pos ⟨fresh, admitted⟩]
        rfl
    · have refused : ¬flow.Admitted := by
        rintro (login | ⟨link, -⟩)
        · exact known (by simp [login])
        · exact known (by simp [link])
      have nothing : ¬(Fresh encoded_at now ∧ flow.Admitted) := fun both => refused both.2
      simp only [Bool.not_true, Bool.false_eq_true, if_false, isMode,
        Bool.eq_false_iff.mpr known, if_neg nothing]
  · have stale : isCurrent now ⌊encoded_at.time⌋ = false :=
      Bool.eq_false_iff.mpr fun current => fresh ((isCurrent_iff encoded_at now).mp current)
    have nothing : ¬(Fresh encoded_at now ∧ flow.Admitted) := fun both => fresh both.1
    rw [stale, if_neg nothing]
    rfl

/-! ## The cookie -/

theorem decode_oauth_flow_signed {encoded signed : Text} {payload : Json} (now : ClockReading)
    {flow : Option OAuthFlowState} (genuine : signature hmac encoded = some signed)
    (read : payloadOf codecs encoded = some payload)
    (flows : flowOfPayload payload now = .ok flow) :
    decode_oauth_flow hmac codecs (some (encoded ++ .ofChar '.' :: signed)) now = .ok flow := by
  have nonempty : (encoded ++ CodePoint.ofChar '.' :: signed).isEmpty = false := by
    cases encoded <;> rfl
  rw [decode_oauth_flow]
  simp only [nonempty, tryDecode_signed now genuine read, flows]
  rfl

end

/-- A text that somebody presents: nobody has the signature of a text that has not been encoded. -/
structure Presented (hmac : Hmac) where
  value : Text
  unforged : ∀ encoded signed, value = encoded ++ .ofChar '.' :: signed →
    signature hmac encoded = some signed →
      ∃ flow now, encode_oauth_flow hmac flow now = some value

section

variable {hmac : Hmac} {codecs : Codecs}

/-- What is presented and has not been encoded is refused, without an exception. -/
theorem decode_oauth_flow_presented (presented : Presented hmac) (now : ClockReading) :
    (∃ flow encoded_at, encode_oauth_flow hmac flow encoded_at = some presented.value) ∨
      decode_oauth_flow hmac codecs (some presented.value) now = .ok none := by
  rw [or_iff_not_imp_left]
  intro foreign
  rw [decode_oauth_flow]
  split
  · rfl
  · have refused : tryDecode hmac codecs presented.value now = .ok none ∨
        tryDecode hmac codecs presented.value now = .error .value_error ∨
        tryDecode hmac codecs presented.value now = .error .type_error := by
      rw [tryDecode]
      split
      · exact .inr (.inl rfl)
      · rename_i encoded signed parts
        split
        · exact .inr (.inl rfl)
        · rename_i expected genuine
          split
          · exact .inr (.inr rfl)
          · split
            · exact .inl rfl
            · rename_i same
              have forged := presented.unforged encoded signed (Text.rpartition_some parts)
                (by rw [genuine, not_not.mp same])
              exact absurd forged foreign
    rcases refused with none | value | type
    · rw [none]
    · rw [value]
    · rw [type]

end

end PackageRegistry.Auth
