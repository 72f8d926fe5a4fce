import Mathlib.Data.List.Sort
import Mathlib.Order.Fin.Basic
import PackageRegistry.Lib.Double

/-! # JSON values, their canonical text and how it is read

Objects keep the order of their fields, as Python's dictionaries do. The canonical
text sorts them by key and indents by two spaces. Integers have any number of digits:
the limit that the interpreter may put on their conversion is taken to be off.
-/

inductive Json where
  | null
  | bool (value : Bool)
  | int (value : Int)
  | float (value : Double)
  | str (value : Text)
  | arr (items : List Json)
  | obj (fields : List (Text × Json))

namespace Json

/-- `dict.get` -/
def field (key : Text) : Json → Option Json
  | .obj fields => fields.lookup key
  | _ => none

/-! ## Canonical text -/

/-- `sorted(dict.items())` -/
def byKey {α : Type} (fields : List (Text × α)) : List (Text × α) :=
  fields.insertionSort fun a b => a.1 ≤ b.1

mutual

/-- The same value with the fields of every object in the order of their keys -/
def sortKeys : Json → Json
  | .arr items => .arr (sortItems items)
  | .obj fields => .obj (byKey (sortFields fields))
  | v => v

def sortItems : List Json → List Json
  | [] => []
  | v :: rest => sortKeys v :: sortItems rest

def sortFields : List (Text × Json) → List (Text × Json)
  | [] => []
  | (key, v) :: rest => (key, sortKeys v) :: sortFields rest

end

def hexDigit (n : Nat) : CodePoint :=
  if n < 10 then .ofNat (48 + n) else .ofNat (87 + n)

/-- `ensure_ascii=False` leaves all but the control characters as they are. -/
def escape (c : CodePoint) : Text :=
  if c = .ofChar '"' then text "\\\""
  else if c = .ofChar '\\' then text "\\\\"
  else if c = .ofChar '\n' then text "\\n"
  else if c = .ofChar '\r' then text "\\r"
  else if c = .ofChar '\t' then text "\\t"
  else if c.val = 12 then text "\\f"
  else if c.val = 8 then text "\\b"
  else if c.val < 32 then text "\\u00" ++ [hexDigit (c.val / 16), hexDigit (c.val % 16)]
  else [c]

/-- The characters of a string and its closing quote -/
def stringTail (value : Text) : Text :=
  value.flatMap escape ++ [.ofChar '"']

def quoted (value : Text) : Text :=
  .ofChar '"' :: stringTail value

def ofInt (i : Int) : Text :=
  if i < 0 then .ofChar '-' :: Text.ofNat i.natAbs else Text.ofNat i.natAbs

def newline (level : Nat) : Text :=
  .ofChar '\n' :: List.replicate (2 * level) (.ofChar ' ')

def comma {α : Type} (rest : List α) : Text :=
  if rest.isEmpty then [] else [.ofChar ',']

mutual

/-- `json.dumps(value, ensure_ascii=False, indent=2)` at some depth -/
def render (level : Nat) : Json → Text
  | .null => text "null"
  | .bool value => text (if value then "true" else "false")
  | .int value => ofInt value
  | .float value => value.repr
  | .str value => quoted value
  | .arr [] => text "[]"
  | .arr (v :: rest) =>
      .ofChar '[' :: renderItems (level + 1) (v :: rest) ++ newline level ++ text "]"
  | .obj [] => text "\x7b\x7d"
  | .obj (v :: rest) =>
      .ofChar '{' :: renderFields (level + 1) (v :: rest) ++ newline level ++ text "\x7d"

def renderItems (level : Nat) : List Json → Text
  | [] => []
  | v :: rest => newline level ++ render level v ++ comma rest ++ renderItems level rest

def renderFields (level : Nat) : List (Text × Json) → Text
  | [] => []
  | (key, v) :: rest =>
      newline level ++ quoted key ++ text ": " ++ render level v ++ comma rest ++
        renderFields level rest

end

def canonical_json (value : Json) : Text :=
  render 0 value.sortKeys ++ text "\n"

/-! ## Reading -/

def isSpace (c : CodePoint) : Bool :=
  c == .ofChar ' ' || c == .ofChar '\t' || c == .ofChar '\n' || c == .ofChar '\r'

def skipSpace (t : Text) : Text := t.dropWhile isSpace

def hexValue (c : CodePoint) : Option Nat :=
  if c.isDigit then some (c.val - 48)
  else if .ofChar 'a' ≤ c ∧ c ≤ .ofChar 'f' then some (c.val - 87)
  else if .ofChar 'A' ≤ c ∧ c ≤ .ofChar 'F' then some (c.val - 55)
  else none

def hex4 (a b c d : CodePoint) : Option CodePoint := do
  let a ← hexValue a
  let b ← hexValue b
  let c ← hexValue c
  let d ← hexValue d
  pure (CodePoint.ofNat (((a * 16 + b) * 16 + c) * 16 + d))

def unescape (c : CodePoint) : Option CodePoint :=
  if c = .ofChar '"' ∨ c = .ofChar '\\' ∨ c = .ofChar '/' then some c
  else if c = .ofChar 'n' then some (.ofChar '\n')
  else if c = .ofChar 'r' then some (.ofChar '\r')
  else if c = .ofChar 't' then some (.ofChar '\t')
  else if c = .ofChar 'f' then some (.ofNat 12)
  else if c = .ofChar 'b' then some (.ofNat 8)
  else none

/-- The characters up to the closing quote. Those written as `\u` escapes are marked. -/
def characters : Text → Option (List (CodePoint × Bool) × Text)
  | [] => none
  | c :: rest =>
      if c = .ofChar '"' then some ([], rest)
      else if c = .ofChar '\\' then
        match rest with
        | [] => none
        | e :: rest =>
            if e = .ofChar 'u' then
              match rest with
              | a :: b :: c :: d :: rest => do
                  let unit ← hex4 a b c d
                  let (others, rest) ← characters rest
                  pure ((unit, true) :: others, rest)
              | _ => none
            else do
              let plain ← unescape e
              let (others, rest) ← characters rest
              pure ((plain, false) :: others, rest)
      else if c.val < 32 then none
      else do
        let (others, rest) ← characters rest
        pure ((c, false) :: others, rest)

/-- Two escaped surrogates that belong together are one character. -/
def joinSurrogates : List (CodePoint × Bool) → Text
  | [] => []
  | [(c, _)] => [c]
  | (high, escaped) :: (low, escaped') :: rest =>
      if escaped ∧ escaped' ∧ 0xd800 ≤ high.val ∧ high.val ≤ 0xdbff ∧ 0xdc00 ≤ low.val ∧
          low.val ≤ 0xdfff then
        .ofNat (0x10000 + (high.val - 0xd800) * 1024 + (low.val - 0xdc00)) ::
          joinSurrogates rest
      else high :: joinSurrogates ((low, escaped') :: rest)

/-- `scanstring`, after the opening quote -/
def string (t : Text) : Option (Text × Text) :=
  (characters t).map fun (units, rest) => (joinSurrogates units, rest)

def sign (t : Text) : Bool × Text :=
  match t with
  | c :: rest => if c = .ofChar '-' then (true, rest) else (false, t)
  | [] => (false, [])

/-- `0|[1-9]\d*` -/
def integer (t : Text) : Option (Text × Text) :=
  match t with
  | c :: rest =>
      if c = .ofChar '0' then some ([c], rest)
      else if c.isDigit then some (t.takeWhile CodePoint.isDigit, t.dropWhile CodePoint.isDigit)
      else none
  | [] => none

/-- `(\.\d+)?` -/
def fraction (t : Text) : Option Text × Text :=
  match t with
  | c :: d :: rest =>
      if c = .ofChar '.' ∧ d.isDigit then
        (some ((d :: rest).takeWhile CodePoint.isDigit), (d :: rest).dropWhile CodePoint.isDigit)
      else (none, t)
  | _ => (none, t)

def exponentSign (t : Text) : Bool × Text :=
  match t with
  | c :: rest =>
      if c = .ofChar '-' then (true, rest) else if c = .ofChar '+' then (false, rest) else (false, t)
  | [] => (false, [])

/-- `([eE][-+]?\d+)?` -/
def exponent (t : Text) : Option Int × Text :=
  match t with
  | c :: rest =>
      if c = .ofChar 'e' ∨ c = .ofChar 'E' then
        let (negative, digits) := exponentSign rest
        if digits.head?.any CodePoint.isDigit then
          let power : Int := Text.toNat (digits.takeWhile CodePoint.isDigit)
          (some (if negative then -power else power), digits.dropWhile CodePoint.isDigit)
        else (none, t)
      else (none, t)
  | [] => (none, [])

def number (t : Text) : Option (Json × Text) :=
  let (negative, unsigned) := sign t
  match integer unsigned with
  | none => none
  | some (digits, rest) =>
      match fraction rest with
      | (none, rest) =>
          match exponent rest with
          | (none, rest) =>
              let magnitude : Int := Text.toNat digits
              some (.int (if negative then -magnitude else magnitude), rest)
          | (some power, rest) =>
              some (.float (.ofDecimal negative (Text.toNat digits) power), rest)
      | (some decimals, rest) =>
          let (power, rest) := exponent rest
          some (.float (.ofDecimal negative (Text.toNat (digits ++ decimals))
            (power.getD 0 - decimals.length)), rest)

def literals : List (Text × Json) :=
  [(text "null", .null), (text "true", .bool true), (text "false", .bool false),
    (text "NaN", .float .nan), (text "Infinity", .float (.infinite false)),
    (text "-Infinity", .float (.infinite true))]

def scalar (t : Text) : Option (Json × Text) :=
  match literals.find? fun literal => literal.1.isPrefixOf t with
  | some (name, v) => some (v, t.drop name.length)
  | none => number t

mutual

def value : Nat → Text → Option (Json × Text)
  | 0, _ | _, [] => none
  | fuel + 1, c :: rest =>
      if c = .ofChar '"' then (string rest).map fun (s, rest) => (.str s, rest)
      else if c = .ofChar '[' then
        match skipSpace rest with
        | [] => none
        | d :: rest =>
            if d = .ofChar ']' then some (.arr [], rest)
            else (elements fuel (d :: rest)).map fun (items, rest) => (.arr items, rest)
      else if c = .ofChar '{' then
        match skipSpace rest with
        | [] => none
        | d :: rest =>
            if d = .ofChar '}' then some (.obj [], rest)
            else do
              let (fields, rest) ← members fuel (d :: rest)
              -- `_object_without_duplicate_keys`
              if (fields.map (·.1)).Nodup then some (.obj fields, rest) else none
      else scalar (c :: rest)

def elements : Nat → Text → Option (List Json × Text)
  | 0, _ => none
  | fuel + 1, t => do
      let (v, rest) ← value fuel t
      match skipSpace rest with
      | [] => none
      | c :: rest =>
          if c = .ofChar ']' then some ([v], rest)
          else if c = .ofChar ',' then do
            let (others, rest) ← elements fuel (skipSpace rest)
            some (v :: others, rest)
          else none

def members : Nat → Text → Option (List (Text × Json) × Text)
  | 0, _ | _, [] => none
  | fuel + 1, q :: rest =>
      if q = .ofChar '"' then do
        let (key, rest) ← string rest
        match skipSpace rest with
        | [] => none
        | colon :: rest =>
            if colon = .ofChar ':' then do
              let (v, rest) ← value fuel (skipSpace rest)
              match skipSpace rest with
              | [] => none
              | c :: rest =>
                  if c = .ofChar '}' then some ([(key, v)], rest)
                  else if c = .ofChar ',' then do
                    let (others, rest) ← members fuel (skipSpace rest)
                    some ((key, v) :: others, rest)
                  else none
            else none
      else none

end

/-- `json.loads` with `_object_without_duplicate_keys` -/
def loads (t : Text) : Option Json :=
  match value (t.length + 1) (skipSpace t) with
  | some (v, rest) => if (skipSpace rest).isEmpty then some v else none
  | none => none

end Json

namespace PackageRegistry

theorem lookup_cons {β : Type} (key key' : Text) (v : β) (rest : List (Text × β)) :
    List.lookup key ((key', v) :: rest) = if key = key' then some v else rest.lookup key := by
  by_cases same : key = key'
  · rw [if_pos same, same, List.lookup_cons_self]
  · rw [if_neg same, List.lookup_cons, beq_eq_false_iff_ne.mpr same]

end PackageRegistry
