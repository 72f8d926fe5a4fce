import PackageRegistry.Lib.Json

/-! # URLs as `urllib.parse` splits them

`urlsplit` raises a `ValueError` on some network locations; that is `none` here.
What depends on the Unicode tables, on `ipaddress` and on the wording of other
libraries' messages comes from outside.
-/

namespace PackageRegistry

/-- What the code uses of Python's libraries without looking into it. -/
structure Library where
  /-- `str.lower` of a text that is not ASCII -/
  lower : Text → Text
  /-- `unicodedata.normalize("NFKC", ...)` -/
  nfkc : Text → Text
  /-- The version of the address that `ipaddress.ip_address` reads -/
  ip_address : Text → Option Nat
  repr : Json → Text
  /-- The message of a `json.JSONDecodeError` -/
  jsonError : Text → Text
  /-- The message of a `jsonschema.ValidationError` -/
  schemaError : Json → Text

structure SplitResult where
  scheme : Text
  netloc : Text
  path : Text
  query : Text
  fragment : Text
  deriving DecidableEq

def lowerAscii (c : CodePoint) : CodePoint :=
  if c.isUpper then .ofNat (c.val + 32) else c

section

variable (lib : Library)

def Library.lowercase (t : Text) : Text :=
  if t.all CodePoint.isAscii then t.map lowerAscii else lib.lower t

def isSchemeChar (c : CodePoint) : Bool :=
  c.isLower || c.isUpper || c.isDigit || c == .ofChar '+' || c == .ofChar '-' || c == .ofChar '.'

/-- What `urlsplit` drops before it looks for anything. -/
def cleanUrl (url : Text) : Text :=
  (url.dropWhile fun c => c.val ≤ 32).filter fun c =>
    c != .ofChar '\t' && c != .ofChar '\r' && c != .ofChar '\n'

def splitScheme (url : Text) : Text × Text :=
  match Text.partition (.ofChar ':') url with
  | (scheme, some rest) =>
      if (scheme.head?.any fun c => c.isLower || c.isUpper) && scheme.all isSchemeChar then
        (scheme.map lowerAscii, rest)
      else ([], url)
  | (_, none) => ([], url)

def endsNetloc (c : CodePoint) : Bool :=
  c == .ofChar '/' || c == .ofChar '?' || c == .ofChar '#'

def splitNetloc (url : Text) : Text × Text :=
  if Text.startsWith (text "//") url then
    let rest := url.drop 2
    (rest.takeWhile fun c => !endsNetloc c, rest.dropWhile fun c => !endsNetloc c)
  else ([], url)

/-- `v[a-fA-F0-9]+\..+` -/
def isFutureAddress (hostname : Text) : Bool :=
  match hostname with
  | v :: rest =>
      let (digits, after) := Text.partition (.ofChar '.') rest
      v == .ofChar 'v' && !digits.isEmpty && digits.all (fun c => (Json.hexValue c).isSome) &&
        after.any fun tail => !tail.isEmpty && tail.all (· != .ofChar '\n')
  | [] => false

/-- `_check_bracketed_netloc` -/
def bracketsAllowed (netloc : Text) : Bool :=
  let hostname_and_port := (Text.rpartition (.ofChar '@') netloc).2
  let bracketed? := Text.partition (.ofChar '[') hostname_and_port
  let allowed (hostname : Text) : Bool :=
    if Text.startsWith (text "v") hostname then isFutureAddress hostname
    else lib.ip_address hostname == some 6
  match bracketed? with
  | (before, some bracketed) =>
      let (hostname, port) := Text.partition (.ofChar ']') bracketed
      before.isEmpty && port.all (fun p => p.isEmpty || Text.startsWith (text ":") p) &&
        allowed hostname
  | (_, none) => allowed (Text.partition (.ofChar ':') hostname_and_port).1

/-- `_checknetloc`: no delimiter hides behind a compatibility character. -/
def netlocNormal (netloc : Text) : Bool :=
  let n := netloc.filter fun c =>
    c != .ofChar '@' && c != .ofChar ':' && c != .ofChar '#' && c != .ofChar '?'
  netloc.all CodePoint.isAscii || lib.nfkc n == n ||
    (lib.nfkc n).all fun c => !endsNetloc c && c != .ofChar '@' && c != .ofChar ':'

def urlsplit (url : Text) : Option SplitResult :=
  let (scheme, url) := splitScheme (cleanUrl url)
  let (netloc, url) := splitNetloc url
  let opened := netloc.contains (.ofChar '[')
  let closed := netloc.contains (.ofChar ']')
  if opened != closed then none
  else if opened && !bracketsAllowed lib netloc then none
  else
    let (url, fragment) := Text.partition (.ofChar '#') url
    let (path, query) := Text.partition (.ofChar '?') url
    if netlocNormal lib netloc then
      some { scheme, netloc, path, query := query.getD [], fragment := fragment.getD [] }
    else none

namespace SplitResult

variable (url : SplitResult)

/-- `_hostinfo` -/
def hostinfo : Text × Text :=
  let hostinfo := (Text.rpartition (.ofChar '@') url.netloc).2
  match Text.partition (.ofChar '[') hostinfo with
  | (_, some bracketed) =>
      let (hostname, after) := Text.partition (.ofChar ']') bracketed
      (hostname, ((Text.partition (.ofChar ':') (after.getD [])).2).getD [])
  | (_, none) =>
      let (hostname, port) := Text.partition (.ofChar ':') hostinfo
      (hostname, port.getD [])

def hostname : Option Text :=
  if url.hostinfo.1.isEmpty then none
  else
    match Text.partition (.ofChar '%') url.hostinfo.1 with
    | (name, some zone) => some (lib.lowercase name ++ text "%" ++ zone)
    | (name, none) => some (lib.lowercase name)

def username : Option Text :=
  (Text.rpartition (.ofChar '@') url.netloc).1.map fun userinfo =>
    (Text.partition (.ofChar ':') userinfo).1

def password : Option Text :=
  (Text.rpartition (.ofChar '@') url.netloc).1.bind fun userinfo =>
    (Text.partition (.ofChar ':') userinfo).2

/-- `parsed.port not in {None, 443}`, or the port is no port at all. -/
def invalid_port : Bool :=
  let port := url.hostinfo.2
  !port.isEmpty && !(port.all CodePoint.isDigit && Text.toNat port == 443)

end SplitResult

end

/-! ## `unquote` -/

def hexByte (high low : CodePoint) : Option Nat := do
  let high ← Json.hexValue high
  let low ← Json.hexValue low
  some (high * 16 + low)

/-- The bytes of an ASCII text after its `%xx` escapes are replaced -/
def unescapeBytes : Text → List Nat
  | [] => []
  | [c] => [c.val]
  | [c, d] => [c.val, d.val]
  | c :: high :: low :: rest =>
      match if c = .ofChar '%' then hexByte high low else none with
      | some byte => byte :: unescapeBytes rest
      | none => c.val :: unescapeBytes (high :: low :: rest)

def replacementChar : CodePoint := .ofNat 0xfffd

/-- The start of a UTF-8 sequence: its bits so far, the number of bytes to come, and
    the range of the next one -/
structure Sequence where
  bits : Nat
  needed : Nat
  low : Nat
  high : Nat

/-- The first byte of a character: what it stands for, or the sequence it starts -/
def firstByte (a : Nat) : Text × Option Sequence :=
  if a < 0x80 then ([.ofNat a], none)
  else if a < 0xc2 then ([replacementChar], none)
  else if a < 0xe0 then ([], some ⟨a - 0xc0, 1, 0x80, 0xbf⟩)
  else if a < 0xf0 then
    ([], some ⟨a - 0xe0, 2, if a = 0xe0 then 0xa0 else 0x80, if a = 0xed then 0x9f else 0xbf⟩)
  else if a < 0xf5 then
    ([], some ⟨a - 0xf0, 3, if a = 0xf0 then 0x90 else 0x80, if a = 0xf4 then 0x8f else 0xbf⟩)
  else ([replacementChar], none)

def nextByte (open_ : Option Sequence) (b : Nat) : Text × Option Sequence :=
  match open_ with
  | none => firstByte b
  | some s =>
      if s.low ≤ b ∧ b ≤ s.high then
        let bits := s.bits * 64 + (b - 0x80)
        if s.needed = 1 then ([.ofNat bits], none)
        else ([], some ⟨bits, s.needed - 1, 0x80, 0xbf⟩)
      else (replacementChar :: (firstByte b).1, (firstByte b).2)

def decodeFrom (open_ : Option Sequence) : List Nat → Text
  | [] => if open_.isSome then [replacementChar] else []
  | b :: rest => (nextByte open_ b).1 ++ decodeFrom (nextByte open_ b).2 rest

/-- `bytes.decode("utf-8", "replace")`: each maximal broken sequence is one U+FFFD. -/
def decodeReplacing (bytes : List Nat) : Text := decodeFrom none bytes

/-- `unquote` with the ASCII characters read since the last other one -/
def unquoteFrom (ascii : Text) : Text → Text
  | [] => decodeReplacing (unescapeBytes ascii)
  | c :: rest =>
      if c.isAscii then unquoteFrom (ascii ++ [c]) rest
      else decodeReplacing (unescapeBytes ascii) ++ c :: unquoteFrom [] rest

def unquote (t : Text) : Text :=
  if t.contains (.ofChar '%') then unquoteFrom [] t else t

end PackageRegistry
