import PackageRegistry.Lib.JsonEquality
import PackageRegistry.Lib.Utf8

/-! # Compact JSON in ASCII

`json.dumps` with its default escapes and without spaces, and `json.loads` without a hook: of
two items with one key the later one counts. What is written for an object of plain values is
read back.
-/

namespace Json

/-! ## Writing -/

/-- `\uXXXX` -/
def escapeUnit (n : Nat) : Text :=
  text "\\u" ++ [hexDigit (n / 4096), hexDigit (n / 256 % 16), hexDigit (n / 16 % 16),
    hexDigit (n % 16)]

/-- `ensure_ascii=True` -/
def escapeAscii (c : CodePoint) : Text :=
  if c = .ofChar '"' then text "\\\""
  else if c = .ofChar '\\' then text "\\\\"
  else if c = .ofChar '\n' then text "\\n"
  else if c = .ofChar '\r' then text "\\r"
  else if c = .ofChar '\t' then text "\\t"
  else if c.val = 12 then text "\\f"
  else if c.val = 8 then text "\\b"
  else if 32 ≤ c.val ∧ c.val ≤ 126 then [c]
  else if c.val < 0x10000 then escapeUnit c.val
  else
    escapeUnit (0xd800 + (c.val - 0x10000) / 1024) ++ escapeUnit (0xdc00 + (c.val - 0x10000) % 1024)

def asciiTail (value : Text) : Text :=
  value.flatMap escapeAscii ++ [.ofChar '"']

def quotedAscii (value : Text) : Text :=
  .ofChar '"' :: asciiTail value

mutual

/-- `json.dumps(value, separators=(",", ":"))` -/
def compact : Json → Text
  | .null => text "null"
  | .bool value => text (if value then "true" else "false")
  | .int value => ofInt value
  | .float value => value.repr
  | .str value => quotedAscii value
  | .arr items => .ofChar '[' :: compactItems items ++ text "]"
  | .obj fields => .ofChar '{' :: compactFields fields ++ text "\x7d"

def compactItems : List Json → Text
  | [] => []
  | v :: rest => compact v ++ comma rest ++ compactItems rest

def compactFields : List (Text × Json) → Text
  | [] => []
  | (key, v) :: rest =>
      quotedAscii key ++ text ":" ++ compact v ++ comma rest ++ compactFields rest

end

/-- with `sort_keys=True` -/
def dumps_compact (value : Json) : Text :=
  compact value.sortKeys

/-! ## Reading -/

/-- `d[key] = v` -/
def setItem (d : List (Text × Json)) (item : Text × Json) : List (Text × Json) :=
  if d.any (·.1 == item.1) then d.map fun f => if f.1 = item.1 then item else f
  else d ++ [item]

/-- `dict(pairs)` -/
def dictOf (pairs : List (Text × Json)) : List (Text × Json) :=
  pairs.foldl setItem []

mutual

def valueOf : Nat → Text → Option (Json × Text)
  | 0, _ | _, [] => none
  | fuel + 1, c :: rest =>
      if c = .ofChar '"' then (string rest).map fun (s, rest) => (.str s, rest)
      else if c = .ofChar '[' then
        match skipSpace rest with
        | [] => none
        | d :: rest =>
            if d = .ofChar ']' then some (.arr [], rest)
            else (elementsOf fuel (d :: rest)).map fun (items, rest) => (.arr items, rest)
      else if c = .ofChar '{' then
        match skipSpace rest with
        | [] => none
        | d :: rest =>
            if d = .ofChar '}' then some (.obj [], rest)
            else (membersOf fuel (d :: rest)).map fun (fields, rest) => (.obj (dictOf fields), rest)
      else scalar (c :: rest)

def elementsOf : Nat → Text → Option (List Json × Text)
  | 0, _ => none
  | fuel + 1, t => do
      let (v, rest) ← valueOf fuel t
      match skipSpace rest with
      | [] => none
      | c :: rest =>
          if c = .ofChar ']' then some ([v], rest)
          else if c = .ofChar ',' then do
            let (others, rest) ← elementsOf fuel (skipSpace rest)
            some (v :: others, rest)
          else none

def membersOf : Nat → Text → Option (List (Text × Json) × Text)
  | 0, _ | _, [] => none
  | fuel + 1, q :: rest =>
      if q = .ofChar '"' then do
        let (key, rest) ← string rest
        match skipSpace rest with
        | [] => none
        | colon :: rest =>
            if colon = .ofChar ':' then do
              let (v, rest) ← valueOf fuel (skipSpace rest)
              match skipSpace rest with
              | [] => none
              | c :: rest =>
                  if c = .ofChar '}' then some ([(key, v)], rest)
                  else if c = .ofChar ',' then do
                    let (others, rest) ← membersOf fuel (skipSpace rest)
                    some ((key, v) :: others, rest)
                  else none
            else none
      else none

end

/-- `json.loads` of a text -/
def loadsPlain (t : Text) : Option Json :=
  match valueOf (t.length + 1) (skipSpace t) with
  | some (v, rest) => if (skipSpace rest).isEmpty then some v else none
  | none => none

/-! ## Strings -/

theorem hexValue_hexDigit {n : Nat} (small : n < 16) : hexValue (hexDigit n) = some n := by
  have all : ∀ m : Fin 16, hexValue (hexDigit m) = some m.val := by decide
  exact all ⟨n, small⟩

theorem hex4_unit {n : Nat} (small : n < 0x10000) :
    hex4 (hexDigit (n / 4096)) (hexDigit (n / 256 % 16)) (hexDigit (n / 16 % 16))
      (hexDigit (n % 16)) = some (.ofNat n) := by
  have value : ((n / 4096 * 16 + n / 256 % 16) * 16 + n / 16 % 16) * 16 + n % 16 = n := by omega
  rw [hex4, hexValue_hexDigit (by omega), hexValue_hexDigit (by omega),
    hexValue_hexDigit (by omega), hexValue_hexDigit (by omega)]
  exact congrArg (fun m => some (CodePoint.ofNat m)) value

theorem characters_escapeUnit {n : Nat} (small : n < 0x10000) (rest : Text) :
    characters (escapeUnit n ++ rest) =
      (characters rest).map fun (others, rest) => ((.ofNat n, true) :: others, rest) :=
  characters_unit (hex4_unit small) rest

/-- What the reader may make of an escaped character -/
inductive UnitsOf (c : CodePoint) : List (CodePoint × Bool) → Prop
  | one (marked : Bool) : UnitsOf c [(c, marked)]
  | pair (large : 0x10000 ≤ c.val) :
      UnitsOf c [(.ofNat (0xd800 + (c.val - 0x10000) / 1024), true),
        (.ofNat (0xdc00 + (c.val - 0x10000) % 1024), true)]

theorem characters_escapeAscii (c : CodePoint) (rest : Text) :
    ∃ units, UnitsOf c units ∧ characters (escapeAscii c ++ rest) =
      (characters rest).map fun (others, rest) => (units ++ others, rest) := by
  have short : ∀ {e c : CodePoint}, e ≠ .ofChar 'u' → unescape e = some c →
      ∃ units, UnitsOf c units ∧ characters (.ofChar '\\' :: e :: rest) =
        (characters rest).map fun (others, rest) => (units ++ others, rest) :=
    fun noUnit known => ⟨_, .one false, characters_escaped noUnit known rest⟩
  unfold escapeAscii
  split_ifs with quote backslash line carriage tab feed back printable basic
  · exact quote ▸ short (e := .ofChar '"') (by decide) (by decide)
  · exact backslash ▸ short (e := .ofChar '\\') (by decide) (by decide)
  · exact line ▸ short (e := .ofChar 'n') (by decide) (by decide)
  · exact carriage ▸ short (e := .ofChar 'r') (by decide) (by decide)
  · exact tab ▸ short (e := .ofChar 't') (by decide) (by decide)
  · have same : c = 12 := Fin.ext feed
    exact same ▸ short (e := .ofChar 'f') (by decide) (by decide)
  · have same : c = 8 := Fin.ext back
    exact same ▸ short (e := .ofChar 'b') (by decide) (by decide)
  · exact ⟨_, .one false, characters_plain quote backslash printable.1 rest⟩
  · have same : CodePoint.ofNat c.val = c := Fin.ofNat_val_eq_self c
    refine ⟨_, .one true, (characters_escapeUnit basic rest).trans ?_⟩
    rw [same]
    rfl
  · have bound := c.isLt
    refine ⟨_, .pair (not_lt.mp basic), ?_⟩
    rw [List.append_assoc, characters_escapeUnit (by omega), characters_escapeUnit (by omega),
      Option.map_map]
    rfl

/-- What the reader may make of an escaped text -/
inductive UnitsOfText : Text → List (CodePoint × Bool) → Prop
  | nil : UnitsOfText [] []
  | cons {c : CodePoint} {t : Text} {units others : List (CodePoint × Bool)}
      (first : UnitsOf c units) (rest : UnitsOfText t others) :
      UnitsOfText (c :: t) (units ++ others)

theorem characters_asciiTail (s rest : Text) :
    ∃ units, UnitsOfText s units ∧ characters (asciiTail s ++ rest) = some (units, rest) := by
  induction s with
  | nil => exact ⟨[], .nil, characters_quote rest⟩
  | cons c s ih =>
      obtain ⟨others, further, read⟩ := ih
      obtain ⟨units, first, here⟩ := characters_escapeAscii c (asciiTail s ++ rest)
      have split : asciiTail (c :: s) ++ rest = escapeAscii c ++ (asciiTail s ++ rest) := by
        simp [asciiTail, List.flatMap_cons]
      exact ⟨units ++ others, .cons first further, by rw [split, here, read]; rfl⟩

/-- A character that is no surrogate stands for itself. -/
theorem joinSurrogates_one {c : CodePoint} (scalar : Text.isSurrogate c = false) (marked : Bool)
    (rest : List (CodePoint × Bool)) :
    joinSurrogates ((c, marked) :: rest) = c :: joinSurrogates rest := by
  cases rest with
  | nil => rfl
  | cons u rest =>
      simp only [Text.isSurrogate, Bool.and_eq_false_iff, decide_eq_false_iff_not] at scalar
      rw [joinSurrogates, if_neg (by omega)]

theorem joinSurrogates_pair {c : CodePoint} (large : 0x10000 ≤ c.val)
    (rest : List (CodePoint × Bool)) :
    joinSurrogates ((.ofNat (0xd800 + (c.val - 0x10000) / 1024), true) ::
      (.ofNat (0xdc00 + (c.val - 0x10000) % 1024), true) :: rest) = c :: joinSurrogates rest := by
  have bound := c.isLt
  have high : (CodePoint.ofNat (0xd800 + (c.val - 0x10000) / 1024)).val =
      0xd800 + (c.val - 0x10000) / 1024 := Nat.mod_eq_of_lt (by omega)
  have low : (CodePoint.ofNat (0xdc00 + (c.val - 0x10000) % 1024)).val =
      0xdc00 + (c.val - 0x10000) % 1024 := Nat.mod_eq_of_lt (by omega)
  have joined : 0x10000 + (0xd800 + (c.val - 0x10000) / 1024 - 0xd800) * 1024 +
      (0xdc00 + (c.val - 0x10000) % 1024 - 0xdc00) = c.val := by omega
  rw [joinSurrogates, high, low, if_pos ⟨rfl, rfl, by omega, by omega, by omega, by omega⟩, joined]
  exact congrArg (· :: _) (Fin.ofNat_val_eq_self c)

theorem joinSurrogates_units {s : Text} {units : List (CodePoint × Bool)}
    (read : UnitsOfText s units) (scalar : Text.Encodable s) : joinSurrogates units = s := by
  induction read with
  | nil => rfl
  | cons first _ ih =>
      obtain ⟨here, later⟩ := Text.encodable_cons.mp scalar
      cases first with
      | one marked => exact (joinSurrogates_one here marked _).trans (congrArg _ (ih later))
      | pair large => exact (joinSurrogates_pair large _).trans (congrArg _ (ih later))

theorem string_asciiTail {s : Text} (scalar : Text.Encodable s) (rest : Text) :
    string (asciiTail s ++ rest) = some (s, rest) := by
  obtain ⟨units, escaped, read⟩ := characters_asciiTail s rest
  rw [string, read, Option.map_some]
  exact congrArg (fun t => some (t, rest)) (joinSurrogates_units escaped scalar)

/-! ## Objects of values without parts -/

inductive Atom : Json → Prop
  | null : Atom .null
  | nat (n : Nat) : Atom (.int n)
  | str (s : Text) : Atom (.str s)

theorem sortKeys_atom {v : Json} (atom : Atom v) : v.sortKeys = v := by
  cases atom <;> rfl

theorem ofInt_nat (n : Nat) : ofInt n = Text.ofNat n := by
  rw [ofInt, if_neg (by omega), Int.natAbs_natCast]

/-- The text of a value starts with no blank. -/
theorem skipSpace_compact {v : Json} (atom : Atom v) (rest : Text) :
    skipSpace (compact v ++ rest) = compact v ++ rest := by
  cases atom with
  | null => rfl
  | nat n =>
      rw [compact, ofInt_nat]
      cases digits : Text.ofNat n with
      | nil => exact absurd digits (Text.ofNat_ne_nil n)
      | cons d digits' =>
          have digit : d.isDigit = true := Text.isDigit_ofNat n d (by simp [digits])
          exact skipSpace_starts (starts_numeral (by simp [isNumeral, digit])) _
  | str => rfl

theorem valueOf_digit {d : CodePoint} (digit : d.isDigit = true) (fuel : Nat) (rest : Text) :
    valueOf (fuel + 1) (d :: rest) = number (d :: rest) := by
  have noQuote : d ≠ .ofChar '"' := by
    rintro rfl
    exact absurd digit (by decide)
  have noList : d ≠ .ofChar '[' := by
    rintro rfl
    exact absurd digit (by decide)
  have noObject : d ≠ .ofChar '{' := by
    rintro rfl
    exact absurd digit (by decide)
  rw [valueOf, if_neg noQuote, if_neg noList, if_neg noObject, scalar_digit digit]

theorem valueOf_atom {v : Json} (atom : Atom v) (scalars : ∀ s ∈ v.strings, Text.Encodable s)
    (fuel : Nat) {rest : Text} (ends : Ends rest) :
    valueOf (fuel + 1) (compact v ++ rest) = some (v, rest) := by
  cases atom with
  | null =>
      have other : CodePoint.ofChar 'n' ≠ .ofChar '"' ∧ CodePoint.ofChar 'n' ≠ .ofChar '[' ∧
          CodePoint.ofChar 'n' ≠ .ofChar '{' := by decide
      have read : scalar (text "null" ++ rest) = some (.null, rest) := rfl
      have head : text "null" ++ rest = .ofChar 'n' :: (text "ull" ++ rest) := rfl
      rw [compact, head, valueOf, if_neg other.1, if_neg other.2.1, if_neg other.2.2, ← head, read]
  | nat n =>
      have read := number_ofInt n ends
      rw [compact]
      rw [ofInt_nat] at read ⊢
      cases digits : Text.ofNat n with
      | nil => exact absurd digits (Text.ofNat_ne_nil n)
      | cons d digits' =>
          have digit : d.isDigit = true := Text.isDigit_ofNat n d (by simp [digits])
          rw [digits] at read
          exact (valueOf_digit digit fuel _).trans read
  | str s =>
      have here : Text.Encodable s := scalars s List.mem_cons_self
      rw [compact, quotedAscii, List.cons_append, valueOf, if_pos rfl, string_asciiTail here]
      rfl

/-- The text after the first value of an object -/
def closing (fields : List (Text × Json)) (rest : Text) : Text :=
  comma fields ++ (compactFields fields ++ .ofChar '}' :: rest)

/-- The text after the quote of a key -/
def memberText (key : Text) (v : Json) (fields : List (Text × Json)) (rest : Text) : Text :=
  asciiTail key ++ .ofChar ':' :: (compact v ++ closing fields rest)

theorem compactFields_cons (key : Text) (v : Json) (fields : List (Text × Json)) (rest : Text) :
    compactFields ((key, v) :: fields) ++ .ofChar '}' :: rest =
      .ofChar '"' :: memberText key v fields rest := by
  have colon : text ":" = [.ofChar ':'] := rfl
  rw [compactFields, memberText, closing, quotedAscii, colon]
  simp

theorem ends_closing (fields : List (Text × Json)) (rest : Text) : Ends (closing fields rest) := by
  cases fields with
  | nil => exact ends_cons (by decide) _
  | cons => exact ends_cons (by decide) _

theorem closing_nil (rest : Text) : closing [] rest = .ofChar '}' :: rest := rfl

theorem closing_cons (key : Text) (v : Json) (fields : List (Text × Json)) (rest : Text) :
    closing ((key, v) :: fields) rest =
      .ofChar ',' :: .ofChar '"' :: memberText key v fields rest := by
  rw [closing, compactFields_cons]
  rfl

theorem skipSpace_mark {c : CodePoint} (mark : isSpace c = false) (rest : Text) :
    skipSpace (c :: rest) = c :: rest := by
  rw [skipSpace, List.dropWhile_cons_of_neg (by simp [mark])]

/-- Values without parts, and no surrogate in them or in their keys -/
def Flat (fields : List (Text × Json)) : Prop :=
  ∀ f ∈ fields, Atom f.2 ∧ Text.Encodable f.1 ∧ ∀ s ∈ f.2.strings, Text.Encodable s

theorem membersOf_flat {key : Text} {v : Json} {fields : List (Text × Json)}
    (flat : Flat ((key, v) :: fields)) (fuel : Nat) (enough : fields.length < fuel) (rest : Text) :
    membersOf (fuel + 1) (.ofChar '"' :: memberText key v fields rest) =
      some ((key, v) :: fields, rest) := by
  have colon : isSpace (.ofChar ':') = false := by decide
  induction fields generalizing key v fuel with
  | nil =>
      obtain ⟨atom, scalar, scalars⟩ : Atom v ∧ Text.Encodable key ∧
          ∀ s ∈ v.strings, Text.Encodable s := flat (key, v) List.mem_cons_self
      obtain ⟨fuel, rfl⟩ : ∃ n, fuel = n + 1 := ⟨fuel - 1, by omega⟩
      have brace : isSpace (.ofChar '}') = false := by decide
      have read := valueOf_atom atom scalars fuel (ends_closing [] rest)
      rw [closing_nil] at read
      rw [membersOf, if_pos rfl, memberText, string_asciiTail scalar]
      simp only [Option.bind_eq_bind, Option.bind_some, skipSpace_mark colon, if_true,
        skipSpace_compact atom, read, closing_nil, skipSpace_mark brace]
  | cons f fields ih =>
      obtain ⟨name, w⟩ := f
      obtain ⟨atom, scalar, scalars⟩ : Atom v ∧ Text.Encodable key ∧
          ∀ s ∈ v.strings, Text.Encodable s := flat (key, v) List.mem_cons_self
      obtain ⟨fuel, rfl⟩ : ∃ n, fuel = n + 1 := ⟨fuel - 1, by omega⟩
      have others := ih (fun f mem => flat f (List.mem_cons_of_mem _ mem)) fuel
        (Nat.lt_of_succ_lt_succ enough)
      have comma : isSpace (.ofChar ',') = false := by decide
      have quote : isSpace (.ofChar '"') = false := by decide
      have other : CodePoint.ofChar ',' ≠ .ofChar '}' := by decide
      have read := valueOf_atom atom scalars fuel (ends_closing ((name, w) :: fields) rest)
      rw [closing_cons] at read
      rw [membersOf, if_pos rfl, memberText, string_asciiTail scalar]
      simp only [Option.bind_eq_bind, Option.bind_some, skipSpace_mark colon, if_true,
        skipSpace_compact atom, read, closing_cons, skipSpace_mark comma, if_neg other,
        skipSpace_mark quote, others]

/-! A dictionary takes items with distinct keys as they are. -/

theorem setItem_new {d : List (Text × Json)} {item : Text × Json}
    (fresh : item.1 ∉ d.map (·.1)) : setItem d item = d ++ [item] := by
  have absent : d.any (·.1 == item.1) = false := by
    rw [List.any_eq_false]
    intro f mem same
    exact fresh (List.mem_map.mpr ⟨f, mem, beq_iff_eq.mp same⟩)
  rw [setItem, absent]
  rfl

theorem foldl_setItem (d pairs : List (Text × Json))
    (distinct : ((d ++ pairs).map (·.1)).Nodup) : pairs.foldl setItem d = d ++ pairs := by
  induction pairs generalizing d with
  | nil => rw [List.foldl_nil, List.append_nil]
  | cons item rest ih =>
      have fresh : item.1 ∉ d.map (·.1) := by
        intro mem
        rw [List.map_append, List.map_cons] at distinct
        exact (List.nodup_append.mp distinct).2.2 _ mem _ List.mem_cons_self rfl
      rw [List.foldl_cons, setItem_new fresh, ih (d ++ [item]) (by simpa using distinct),
        List.append_assoc, List.singleton_append]

theorem dictOf_distinct {pairs : List (Text × Json)} (distinct : (pairs.map (·.1)).Nodup) :
    dictOf pairs = pairs :=
  foldl_setItem [] pairs distinct

/-! ## The whole text -/

theorem length_compactFields (fields : List (Text × Json)) :
    fields.length ≤ (compactFields fields).length := by
  induction fields with
  | nil => exact le_rfl
  | cons f rest ih =>
      obtain ⟨key, v⟩ := f
      simp only [compactFields, quotedAscii, List.length_append, List.length_cons]
      omega

/-- What is written for an object of values without parts is read back. -/
theorem loadsPlain_compact {fields : List (Text × Json)} (some_field : fields ≠ [])
    (flat : Flat fields) (distinct : (fields.map (·.1)).Nodup) :
    loadsPlain (compact (.obj fields)) = some (.obj fields) := by
  have size := length_compactFields fields
  obtain ⟨⟨key, v⟩, others, rfl⟩ := List.exists_cons_of_ne_nil some_field
  have whole : compact (.obj ((key, v) :: others)) =
      .ofChar '{' :: .ofChar '"' :: memberText key v others [] := by
    rw [compact, List.cons_append, show text "\x7d" = [.ofChar '}'] from rfl, compactFields_cons]
  have enough : others.length < (memberText key v others []).length := by
    rw [memberText, asciiTail, closing]
    rw [List.length_cons] at size
    have rest := length_compactFields others
    simp only [List.length_append, List.length_cons]
    omega
  have brace : isSpace (.ofChar '{') = false := by decide
  have quote : isSpace (.ofChar '"') = false := by decide
  have other : CodePoint.ofChar '"' ≠ .ofChar '}' := by decide
  have noQuote : CodePoint.ofChar '{' ≠ .ofChar '"' := by decide
  have noList : CodePoint.ofChar '{' ≠ .ofChar '[' := by decide
  have read := membersOf_flat flat ((memberText key v others []).length + 1) (by omega) []
  rw [whole, loadsPlain, skipSpace_mark brace, List.length_cons, List.length_cons, valueOf,
    if_neg noQuote, if_neg noList, if_pos rfl, skipSpace_mark quote]
  simp only [if_neg other, read, Option.map_some, dictOf_distinct distinct]
  rfl

/-! ## The text is ASCII -/

def Ascii (t : Text) : Prop := ∀ c ∈ t, c.val < 128

instance (t : Text) : Decidable (Ascii t) := List.decidableBAll (fun c : CodePoint => c.val < 128) t

theorem ascii_nil : Ascii [] := List.forall_mem_nil _

theorem ascii_append {s t : Text} : Ascii (s ++ t) ↔ Ascii s ∧ Ascii t :=
  List.forall_mem_append

theorem ascii_cons {c : CodePoint} {t : Text} : Ascii (c :: t) ↔ c.val < 128 ∧ Ascii t :=
  List.forall_mem_cons

theorem ascii_hexDigit {n : Nat} (small : n < 16) : (hexDigit n).val < 128 := by
  have all : ∀ m : Fin 16, (hexDigit m).val < 128 := by decide
  exact all ⟨n, small⟩

theorem ascii_escapeUnit {n : Nat} (small : n < 0x10000) : Ascii (escapeUnit n) := by
  have mark : Ascii (text "\\u") := by decide
  refine ascii_append.mpr ⟨mark, ?_⟩
  simp only [ascii_cons]
  exact ⟨ascii_hexDigit (by omega), ascii_hexDigit (by omega), ascii_hexDigit (by omega),
    ascii_hexDigit (by omega), ascii_nil⟩

theorem ascii_escapeAscii (c : CodePoint) : Ascii (escapeAscii c) := by
  have bound := c.isLt
  unfold escapeAscii
  split_ifs with quote backslash line carriage tab feed back printable basic
  · decide
  · decide
  · decide
  · decide
  · decide
  · decide
  · decide
  · exact ascii_cons.mpr ⟨by omega, ascii_nil⟩
  · exact ascii_escapeUnit basic
  · exact ascii_append.mpr ⟨ascii_escapeUnit (by omega), ascii_escapeUnit (by omega)⟩

theorem ascii_quotedAscii (s : Text) : Ascii (quotedAscii s) := by
  refine ascii_cons.mpr ⟨by decide, ascii_append.mpr ⟨?_, by decide⟩⟩
  intro d mem
  obtain ⟨c, -, here⟩ := List.mem_flatMap.mp mem
  exact ascii_escapeAscii c d here

theorem ascii_ofNat (n : Nat) : Ascii (Text.ofNat n) :=
  Text.ascii_digits (Text.isDigit_ofNat n)

theorem ascii_compact {v : Json} (atom : Atom v) : Ascii (compact v) := by
  cases atom with
  | null => decide
  | nat n =>
      rw [compact, ofInt_nat]
      exact ascii_ofNat n
  | str s => exact ascii_quotedAscii s

theorem ascii_compactFields {fields : List (Text × Json)} (atoms : ∀ f ∈ fields, Atom f.2) :
    Ascii (compactFields fields) := by
  induction fields with
  | nil => exact ascii_nil
  | cons f rest ih =>
      obtain ⟨key, v⟩ := f
      obtain ⟨here, later⟩ := List.forall_mem_cons.mp atoms
      have separator : Ascii (comma rest) := by
        rw [comma]
        split
        · exact ascii_nil
        · decide
      have colon : Ascii (text ":") := by decide
      rw [compactFields]
      exact ascii_append.mpr ⟨ascii_append.mpr ⟨ascii_append.mpr ⟨ascii_append.mpr
        ⟨ascii_quotedAscii key, colon⟩, ascii_compact here⟩, separator⟩, ih later⟩

theorem ascii_compact_obj {fields : List (Text × Json)} (atoms : ∀ f ∈ fields, Atom f.2) :
    Ascii (compact (.obj fields)) := by
  have closed : Ascii (text "\x7d") := by decide
  rw [compact, List.cons_append]
  exact ascii_cons.mpr ⟨by decide, ascii_append.mpr ⟨ascii_compactFields atoms, closed⟩⟩

/-! ## With sorted keys -/

theorem mem_sorted {fields : List (Text × Json)} {f : Text × Json}
    (mem : f ∈ byKey (sortFields fields)) : ∃ g ∈ fields, f = (g.1, g.2.sortKeys) := by
  have here := (byKey_perm (sortFields fields)).mem_iff.mp mem
  rw [sortFields_eq] at here
  obtain ⟨g, inFields, same⟩ := List.mem_map.mp here
  exact ⟨g, inFields, same.symm⟩

theorem loadsPlain_dumps {fields : List (Text × Json)} (some_field : fields ≠ [])
    (flat : Flat fields) (distinct : (fields.map (·.1)).Nodup) :
    loadsPlain (dumps_compact (.obj fields)) = some (.obj (byKey (sortFields fields))) := by
  have perm := byKey_perm (sortFields fields)
  rw [dumps_compact, sortKeys]
  refine loadsPlain_compact ?_ ?_ ?_
  · intro empty
    rw [empty, List.nil_perm, sortFields_eq, List.map_eq_nil_iff] at perm
    exact some_field perm
  · intro f mem
    obtain ⟨g, inFields, rfl⟩ := mem_sorted mem
    rw [sortKeys_atom (flat g inFields).1]
    exact flat g inFields
  · rw [(perm.map (·.1)).nodup_iff, sortFields_eq, List.map_map]
    exact distinct

theorem ascii_dumps {fields : List (Text × Json)} (atoms : ∀ f ∈ fields, Atom f.2) :
    Ascii (dumps_compact (.obj fields)) := by
  rw [dumps_compact, sortKeys]
  refine ascii_compact_obj fun f mem => ?_
  obtain ⟨g, inFields, rfl⟩ := mem_sorted mem
  rw [sortKeys_atom (atoms g inFields)]
  exact atoms g inFields

/-- The text of an object with a field begins with a brace and a quote. -/
theorem dumps_compact_head {fields : List (Text × Json)} (some_field : fields ≠ []) :
    ∃ rest, dumps_compact (.obj fields) = .ofChar '{' :: .ofChar '"' :: rest := by
  have perm := byKey_perm (sortFields fields)
  rw [dumps_compact, sortKeys, compact]
  cases sorted : byKey (sortFields fields) with
  | nil =>
      rw [sorted, List.nil_perm, sortFields_eq, List.map_eq_nil_iff] at perm
      exact absurd perm some_field
  | cons f rest =>
      obtain ⟨key, v⟩ := f
      exact ⟨_, rfl⟩

end Json
