import Mathlib.Tactic.SplitIfs
import PackageRegistry.Lib.Json

/-! # What is written is read back

Reading the canonical text of a value gives this value with sorted fields, as long as
its objects have distinct keys and its floating point numbers are read back. Hence
two such values with one canonical text differ in the order of fields at most.
-/

namespace Json

/-! ## Strings -/

theorem characters_quote (rest : Text) : characters (.ofChar '"' :: rest) = some ([], rest) := by
  rw [characters.eq_def]
  simp only [if_true]

theorem characters_plain {c : CodePoint} (noQuote : c ≠ .ofChar '"') (noEscape : c ≠ .ofChar '\\')
    (printable : 32 ≤ c.val) (rest : Text) :
    characters (c :: rest) =
      (characters rest).map fun (others, rest) => ((c, false) :: others, rest) := by
  rw [characters.eq_def]
  simp only [noQuote, noEscape, if_false, Nat.not_lt.mpr printable]
  cases characters rest <;> rfl

theorem backslash_ne_quote : CodePoint.ofChar '\\' ≠ .ofChar '"' := by decide

theorem characters_escaped {e c : CodePoint} (noUnit : e ≠ .ofChar 'u') (known : unescape e = some c)
    (rest : Text) : characters (.ofChar '\\' :: e :: rest) =
      (characters rest).map fun (others, rest) => ((c, false) :: others, rest) := by
  rw [characters.eq_def]
  simp only [backslash_ne_quote, noUnit, if_false, if_true, known]
  cases characters rest <;> rfl

theorem characters_unit {a b c d unit : CodePoint} (known : hex4 a b c d = some unit)
    (rest : Text) : characters (.ofChar '\\' :: .ofChar 'u' :: a :: b :: c :: d :: rest) =
      (characters rest).map fun (others, rest) => ((unit, true) :: others, rest) := by
  rw [characters.eq_def]
  simp only [backslash_ne_quote, if_false, if_true, known]
  cases characters rest <;> rfl

theorem hex4_low {c : CodePoint} (low : c.val < 32) :
    hex4 (.ofChar '0') (.ofChar '0') (hexDigit (c.val / 16)) (hexDigit (c.val % 16)) = some c := by
  have all : ∀ m : Fin 32, hex4 (.ofChar '0') (.ofChar '0') (hexDigit (m.val / 16))
      (hexDigit (m.val % 16)) = some (.ofNat m.val) := by decide
  have same : CodePoint.ofNat c.val = c := Fin.ofNat_val_eq_self c
  exact (all ⟨c.val, low⟩).trans (congrArg some same)

/-- An escaped character is read as itself. -/
theorem characters_escape (c : CodePoint) (rest : Text) :
    ∃ marked : Bool, (marked = true → c.val < 32) ∧
      characters (escape c ++ rest) =
        (characters rest).map fun (others, rest) => ((c, marked) :: others, rest) := by
  have short : ∀ {e c : CodePoint}, e ≠ .ofChar 'u' → unescape e = some c →
      ∃ marked : Bool, (marked = true → c.val < 32) ∧
        characters (.ofChar '\\' :: e :: rest) =
          (characters rest).map fun (others, rest) => ((c, marked) :: others, rest) :=
    fun noUnit known => ⟨false, nofun, characters_escaped noUnit known rest⟩
  unfold escape
  split_ifs with quote backslash line carriage tab feed back low
  · exact quote ▸ short (e := .ofChar '"') (by decide) (by decide)
  · exact backslash ▸ short (e := .ofChar '\\') (by decide) (by decide)
  · exact line ▸ short (e := .ofChar 'n') (by decide) (by decide)
  · exact carriage ▸ short (e := .ofChar 'r') (by decide) (by decide)
  · exact tab ▸ short (e := .ofChar 't') (by decide) (by decide)
  · have same : c = 12 := Fin.ext feed
    exact same ▸ short (e := .ofChar 'f') (by decide) (by decide)
  · have same : c = 8 := Fin.ext back
    exact same ▸ short (e := .ofChar 'b') (by decide) (by decide)
  · exact ⟨true, fun _ => low, characters_unit (hex4_low low) rest⟩
  · exact ⟨false, nofun, characters_plain quote backslash (Nat.not_lt.mp low) rest⟩

theorem characters_stringTail (s rest : Text) :
    ∃ units : List (CodePoint × Bool), (∀ u ∈ units, u.2 = true → u.1.val < 32) ∧
      units.map (·.1) = s ∧ characters (stringTail s ++ rest) = some (units, rest) := by
  induction s with
  | nil => exact ⟨[], by simp, rfl, characters_quote rest⟩
  | cons c s ih =>
      obtain ⟨units, low, same, read⟩ := ih
      obtain ⟨marked, lowest, first⟩ := characters_escape c (stringTail s ++ rest)
      refine ⟨(c, marked) :: units, ?_, by simp [same], ?_⟩
      · intro u mem
        rcases List.mem_cons.mp mem with rfl | later
        · exact lowest
        · exact low u later
      · have split : stringTail (c :: s) ++ rest = escape c ++ (stringTail s ++ rest) := by
          simp [stringTail, List.flatMap_cons]
        rw [split, first, read]
        rfl

/-- Control characters are no surrogates. -/
theorem joinSurrogates_low {units : List (CodePoint × Bool)}
    (low : ∀ u ∈ units, u.2 = true → u.1.val < 32) : joinSurrogates units = units.map (·.1) := by
  induction units using joinSurrogates.induct with
  | case1 => rfl
  | case2 c marked => rfl
  | case3 high escaped low' escaped' rest pair ih =>
      have small := low (high, escaped) (by simp) pair.1
      have large := pair.2.2.1
      simp only at small
      omega
  | case4 high escaped low' escaped' rest single ih =>
      rw [joinSurrogates, if_neg single, ih fun u mem => low u (List.mem_cons_of_mem _ mem)]
      rfl

theorem string_stringTail (s rest : Text) : string (stringTail s ++ rest) = some (s, rest) := by
  obtain ⟨units, low, same, read⟩ := characters_stringTail s rest
  rw [string, read, Option.map_some, ← same, ← joinSurrogates_low low]

/-! ## Numbers -/

/-- What may follow a number. -/
def Ends (rest : Text) : Prop :=
  ∀ c ∈ rest.head?, c.isDigit = false ∧ c ≠ .ofChar '.' ∧ c ≠ .ofChar 'e' ∧ c ≠ .ofChar 'E'

theorem ends_nil : Ends [] := nofun

theorem ends_cons {c : CodePoint} (h : c.isDigit = false ∧ c ≠ .ofChar '.' ∧ c ≠ .ofChar 'e' ∧
    c ≠ .ofChar 'E') (rest : Text) : Ends (c :: rest) := by
  intro d head
  cases head
  exact h

theorem Ends.fraction {rest : Text} (h : Ends rest) : fraction rest = (none, rest) := by
  unfold Json.fraction
  split
  · rename_i c d rest
    rw [if_neg fun both => (h c rfl).2.1 both.1]
  · rfl

theorem Ends.exponent {rest : Text} (h : Ends rest) : exponent rest = (none, rest) := by
  unfold Json.exponent
  split
  · rename_i c rest
    rw [if_neg fun either => either.elim (h c rfl).2.2.1 (h c rfl).2.2.2]
  · rfl

theorem Ends.digits {rest : Text} (h : Ends rest) {digits : Text}
    (all : ∀ c ∈ digits, c.isDigit = true) :
    (digits ++ rest).takeWhile CodePoint.isDigit = digits ∧
      (digits ++ rest).dropWhile CodePoint.isDigit = rest := by
  have stop : rest.takeWhile CodePoint.isDigit = [] ∧ rest.dropWhile CodePoint.isDigit = rest := by
    cases rest with
    | nil => exact ⟨rfl, rfl⟩
    | cons c rest =>
        have noDigit : c.isDigit = false := (h c rfl).1
        simp [noDigit]
  rw [List.takeWhile_append_of_pos all, List.dropWhile_append_of_pos all, stop.1, stop.2]
  simp

theorem integer_ofNat (n : Nat) {rest : Text} (h : Ends rest) :
    integer (Text.ofNat n ++ rest) = some (Text.ofNat n, rest) := by
  by_cases zero : n = 0
  · subst zero
    rfl
  · have taken := h.digits (Text.isDigit_ofNat n)
    have head := Text.head_ofNat (Nat.pos_of_ne_zero zero)
    have all := Text.isDigit_ofNat n
    cases digits : Text.ofNat n with
    | nil => exact absurd digits (Text.ofNat_ne_nil n)
    | cons c digits' =>
        rw [digits] at taken head all
        simp only [List.cons_append] at taken ⊢
        rw [integer, if_neg (head c rfl), if_pos (all c (by simp)), taken.1, taken.2]

theorem number_ofInt (i : Int) {rest : Text} (h : Ends rest) :
    number (ofInt i ++ rest) = some (.int i, rest) := by
  by_cases negative : i < 0
  · rw [ofInt, if_pos negative, number]
    simp only [List.cons_append, sign, if_true, integer_ofNat _ h, h.fraction, h.exponent,
      Text.toNat_ofNat]
    congr 3
    omega
  · rw [ofInt, if_neg negative, number]
    have unsigned : sign (Text.ofNat i.natAbs ++ rest) = (false, Text.ofNat i.natAbs ++ rest) := by
      have all := Text.isDigit_ofNat i.natAbs
      cases digits : Text.ofNat i.natAbs with
      | nil => exact absurd digits (Text.ofNat_ne_nil _)
      | cons c digits' =>
          have digit := all c (by simp [digits])
          have noMinus : c ≠ .ofChar '-' := by
            rintro rfl
            exact absurd digit (by decide)
          rw [List.cons_append, sign, if_neg noMinus]
    simp only [unsigned, integer_ofNat _ h, h.fraction, h.exponent, if_false, Text.toNat_ofNat,
      Bool.false_eq_true]
    congr 3
    omega

/-- The first character of a written value -/
def Starts (c : CodePoint) : Prop :=
  isSpace c = false ∧ c ≠ .ofChar ']' ∧ c ≠ .ofChar '}'

/-- A text that is read as a value, whatever may follow a value -/
structure Reads (v : Json) (t : Text) : Prop where
  starts : ∃ c rest, t = c :: rest ∧ Starts c
  reads : ∀ fuel rest, Ends rest → value (fuel + 1) (t ++ rest) = some (v, rest)

def isNumeral (c : CodePoint) : Bool := c.isDigit || c == .ofChar '-'

theorem starts_numeral {c : CodePoint} (h : isNumeral c = true) : Starts c := by
  refine ⟨?_, ?_, ?_⟩
  · refine Bool.eq_false_iff.mpr fun space => ?_
    simp only [isSpace, Bool.or_eq_true, beq_iff_eq] at space
    rcases space with ((rfl | rfl) | rfl) | rfl <;> exact absurd h (by decide)
  · rintro rfl
    exact absurd h (by decide)
  · rintro rfl
    exact absurd h (by decide)

theorem value_numeral {c : CodePoint} (h : isNumeral c = true) (fuel : Nat) (rest : Text) :
    value (fuel + 1) (c :: rest) = scalar (c :: rest) := by
  have noQuote : c ≠ .ofChar '"' := by
    rintro rfl
    exact absurd h (by decide)
  have noList : c ≠ .ofChar '[' := by
    rintro rfl
    exact absurd h (by decide)
  have noObject : c ≠ .ofChar '{' := by
    rintro rfl
    exact absurd h (by decide)
  rw [value, if_neg noQuote, if_neg noList, if_neg noObject]

/-- A numeral is none of the names of JSON. -/
theorem scalar_digit {c : CodePoint} (h : c.isDigit = true) (rest : Text) :
    scalar (c :: rest) = number (c :: rest) := by
  have none_fits : literals.find? (fun l => l.1.isPrefixOf (c :: rest)) = none := by
    rw [List.find?_eq_none]
    intro l mem prefixed
    have heads : ∀ l ∈ literals, ∃ d t, l.1 = d :: t ∧ d.isDigit = false := by
      simp only [literals, List.forall_mem_cons, List.not_mem_nil, false_implies, implies_true, and_true]
      exact ⟨⟨_, _, rfl, by decide⟩, ⟨_, _, rfl, by decide⟩, ⟨_, _, rfl, by decide⟩,
        ⟨_, _, rfl, by decide⟩, ⟨_, _, rfl, by decide⟩, ⟨_, _, rfl, by decide⟩⟩
    obtain ⟨d, t, whole, noDigit⟩ := heads l mem
    rw [whole, List.isPrefixOf_cons_cons, Bool.and_eq_true, beq_iff_eq] at prefixed
    rw [prefixed.1, h] at noDigit
    cases noDigit
  rw [scalar, none_fits]

theorem scalar_minus {c : CodePoint} (h : c.isDigit = true) (rest : Text) :
    scalar (.ofChar '-' :: c :: rest) = number (.ofChar '-' :: c :: rest) := by
  have none_fits : literals.find? (fun l => l.1.isPrefixOf (.ofChar '-' :: c :: rest)) = none := by
    rw [List.find?_eq_none]
    intro l mem prefixed
    have heads : ∀ l ∈ literals, ∃ d e t, l.1 = d :: e :: t ∧
        (d ≠ .ofChar '-' ∨ e.isDigit = false) := by
      simp only [literals, List.forall_mem_cons, List.not_mem_nil, false_implies, implies_true, and_true]
      exact ⟨⟨_, _, _, rfl, by decide⟩, ⟨_, _, _, rfl, by decide⟩, ⟨_, _, _, rfl, by decide⟩,
        ⟨_, _, _, rfl, by decide⟩, ⟨_, _, _, rfl, by decide⟩, ⟨_, _, _, rfl, by decide⟩⟩
    obtain ⟨d, e, t, whole, other⟩ := heads l mem
    rw [whole, List.isPrefixOf_cons_cons, List.isPrefixOf_cons_cons, Bool.and_eq_true, beq_iff_eq,
      Bool.and_eq_true, beq_iff_eq] at prefixed
    rcases other with noMinus | noDigit
    · exact noMinus prefixed.1
    · rw [prefixed.2.1, h] at noDigit
      cases noDigit
  rw [scalar, none_fits]

theorem reads_int (i : Int) : Reads (.int i) (ofInt i) := by
  have all := Text.isDigit_ofNat i.natAbs
  cases digits : Text.ofNat i.natAbs with
  | nil => exact absurd digits (Text.ofNat_ne_nil _)
  | cons d digits' =>
      have digit : d.isDigit = true := all d (by simp [digits])
      by_cases negative : i < 0
      · have whole : ofInt i = .ofChar '-' :: d :: digits' := by rw [ofInt, if_pos negative, digits]
        refine ⟨⟨_, _, whole, starts_numeral (by decide)⟩, fun fuel rest ends => ?_⟩
        have read := number_ofInt i ends
        rw [whole] at read ⊢
        rw [List.cons_append, value_numeral (by decide), List.cons_append, scalar_minus digit]
        exact read
      · have whole : ofInt i = d :: digits' := by rw [ofInt, if_neg negative, digits]
        have numeral : isNumeral d = true := by simp [isNumeral, digit]
        refine ⟨⟨_, _, whole, starts_numeral numeral⟩, fun fuel rest ends => ?_⟩
        have read := number_ofInt i ends
        rw [whole] at read ⊢
        rw [List.cons_append, value_numeral numeral, scalar_digit digit]
        exact read

theorem number_one {rest : Text} (ends : Ends rest) :
    number (.ofChar '1' :: .ofChar '.' :: .ofChar '0' :: rest) = some (.float .one, rest) := by
  have unsigned : sign (.ofChar '1' :: .ofChar '.' :: .ofChar '0' :: rest) =
      (false, .ofChar '1' :: .ofChar '.' :: .ofChar '0' :: rest) := by
    rw [sign, if_neg (by decide)]
  have whole : integer (.ofChar '1' :: .ofChar '.' :: .ofChar '0' :: rest) =
      some ([.ofChar '1'], .ofChar '.' :: .ofChar '0' :: rest) := by
    rw [integer, if_neg (by decide), if_pos (by decide), List.takeWhile_cons_of_pos (by decide),
      List.takeWhile_cons_of_neg (by decide), List.dropWhile_cons_of_pos (by decide),
      List.dropWhile_cons_of_neg (by decide)]
  have digit : ∀ c ∈ [CodePoint.ofChar '0'], c.isDigit = true := by
    intro c mem
    rw [List.mem_singleton.mp mem]
    decide
  have zero := ends.digits digit
  simp only [List.cons_append, List.nil_append] at zero
  have decimals : fraction (.ofChar '.' :: .ofChar '0' :: rest) = (some [.ofChar '0'], rest) := by
    rw [fraction, if_pos (by decide), zero.1, zero.2]
  have value : Double.ofDecimal false (Text.toNat [.ofChar '1', .ofChar '0']) (-1) = .one := by decide
  rw [number, unsigned]
  simp only [whole, decimals, ends.exponent]
  exact congrArg (fun d => some (Json.float d, rest)) value

theorem reads_one : Reads (.float .one) Double.one.repr := by
  have whole : Double.one.repr = [.ofChar '1', .ofChar '.', .ofChar '0'] := by decide
  rw [whole]
  refine ⟨⟨.ofChar '1', _, rfl, starts_numeral (by decide)⟩, fun fuel rest ends => ?_⟩
  simp only [List.cons_append, List.nil_append]
  rw [value_numeral (by decide), scalar_digit (by decide), number_one ends]

/-! ## Values -/

mutual

/-- A value whose text is read back: distinct keys, and floats that are read as such -/
def Plain : Json → Prop
  | .float d => Reads (.float d) d.repr
  | .arr items => PlainItems items
  | .obj fields => (fields.map (·.1)).Nodup ∧ PlainFields fields
  | _ => True

def PlainItems : List Json → Prop
  | [] => True
  | v :: rest => Plain v ∧ PlainItems rest

def PlainFields : List (Text × Json) → Prop
  | [] => True
  | (_, v) :: rest => Plain v ∧ PlainFields rest

end

mutual

/-- The fuel that reading a value takes -/
def weight : Json → Nat
  | .arr items => 1 + weightItems items
  | .obj fields => 1 + weightFields fields
  | _ => 1

def weightItems : List Json → Nat
  | [] => 0
  | v :: rest => 1 + weight v + weightItems rest

def weightFields : List (Text × Json) → Nat
  | [] => 0
  | (_, v) :: rest => 1 + weight v + weightFields rest

end

theorem starts_render (level : Nat) {v : Json} (plain : Plain v) :
    ∃ c rest, render level v = c :: rest ∧ Starts c := by
  cases v with
  | null => exact ⟨_, _, rfl, by unfold Starts; decide⟩
  | bool b => cases b <;> exact ⟨_, _, rfl, by unfold Starts; decide⟩
  | int i => exact (reads_int i).starts
  | float d => exact Reads.starts plain
  | str s => exact ⟨_, _, rfl, by unfold Starts; decide⟩
  | arr items => cases items <;> exact ⟨_, _, rfl, by unfold Starts; decide⟩
  | obj fields => cases fields <;> exact ⟨_, _, rfl, by unfold Starts; decide⟩

theorem skipSpace_starts {c : CodePoint} (h : Starts c) (rest : Text) :
    skipSpace (c :: rest) = c :: rest := by
  rw [skipSpace, List.dropWhile_cons_of_neg (by simp [h.1])]

theorem skipSpace_newline (level : Nat) (rest : Text) :
    skipSpace (newline level ++ rest) = skipSpace rest := by
  have spaces : ∀ c ∈ newline level, isSpace c = true := by
    intro c mem
    rcases List.mem_cons.mp mem with rfl | space
    · decide
    · rw [List.eq_of_mem_replicate space]
      decide
  rw [skipSpace, List.dropWhile_append_of_pos spaces]
  rfl

theorem skipSpace_render (level : Nat) {v : Json} (plain : Plain v) (rest : Text) :
    skipSpace (render level v ++ rest) = render level v ++ rest := by
  obtain ⟨c, t, whole, starts⟩ := starts_render level plain
  rw [whole]
  exact skipSpace_starts starts (t ++ rest)

theorem ends_newline (level : Nat) (rest : Text) : Ends (newline level ++ rest) :=
  ends_cons (by decide) _

theorem ends_comma {α : Type} (others : List α) (level : Nat) (rest : Text) :
    Ends (comma others ++ (newline level ++ rest)) := by
  unfold comma
  split
  · exact ends_newline level rest
  · exact ends_cons (by decide) _

/-- The text after the first item of a list -/
def itemsTail (level outer : Nat) (items : List Json) (rest : Text) : Text :=
  comma items ++ (renderItems level items ++ (newline outer ++ .ofChar ']' :: rest))

/-- The text after the first value of an object -/
def fieldsTail (level outer : Nat) (fields : List (Text × Json)) (rest : Text) : Text :=
  comma fields ++ (renderFields level fields ++ (newline outer ++ .ofChar '}' :: rest))

theorem ends_itemsTail (level outer : Nat) (items : List Json) (rest : Text) :
    Ends (itemsTail level outer items rest) := by
  cases items with
  | nil => exact ends_newline outer _
  | cons => exact ends_cons (by decide) _

theorem ends_fieldsTail (level outer : Nat) (fields : List (Text × Json)) (rest : Text) :
    Ends (fieldsTail level outer fields rest) := by
  cases fields with
  | nil => exact ends_newline outer _
  | cons => exact ends_cons (by decide) _

theorem value_list {fuel : Nat} {v : Json} {items : List Json} {level outer : Nat} {rest : Text}
    (plain : Plain v) (read : elements fuel (render level v ++ itemsTail level outer items rest) =
      some (v :: items, rest)) :
    value (fuel + 1) (.ofChar '[' :: (newline level ++ (render level v ++
      itemsTail level outer items rest))) = some (.arr (v :: items), rest) := by
  obtain ⟨c, t, whole, starts⟩ := starts_render level plain
  have skipped : skipSpace (newline level ++ (render level v ++ itemsTail level outer items rest)) =
      c :: (t ++ itemsTail level outer items rest) := by
    rw [skipSpace_newline, skipSpace_render level plain, whole]
    rfl
  rw [value, if_neg (by decide), if_pos rfl, skipped]
  simp only [if_neg starts.2.1]
  rw [whole, List.cons_append] at read
  rw [read]
  rfl

theorem elements_last {fuel : Nat} {v : Json} {level outer : Nat} {rest : Text}
    (read : value fuel (render level v ++ itemsTail level outer [] rest) =
      some (v, itemsTail level outer [] rest)) :
    elements (fuel + 1) (render level v ++ itemsTail level outer [] rest) = some ([v], rest) := by
  have skipped : skipSpace (itemsTail level outer [] rest) = .ofChar ']' :: rest := by
    show skipSpace (newline outer ++ .ofChar ']' :: rest) = _
    rw [skipSpace_newline, skipSpace, List.dropWhile_cons_of_neg (by decide)]
  rw [elements, read]
  simp only [Option.bind_eq_bind, Option.bind_some, skipped, if_true]

theorem elements_more {fuel : Nat} {v w : Json} {items : List Json} {level outer : Nat}
    {rest : Text} (plain : Plain w)
    (read : value fuel (render level v ++ itemsTail level outer (w :: items) rest) =
      some (v, itemsTail level outer (w :: items) rest))
    (others : elements fuel (render level w ++ itemsTail level outer items rest) =
      some (w :: items, rest)) :
    elements (fuel + 1) (render level v ++ itemsTail level outer (w :: items) rest) =
      some (v :: w :: items, rest) := by
  have whole : itemsTail level outer (w :: items) rest =
      .ofChar ',' :: (newline level ++ (render level w ++ itemsTail level outer items rest)) := by
    simp [itemsTail, comma, renderItems]
  have skipped : skipSpace (itemsTail level outer (w :: items) rest) =
      .ofChar ',' :: (newline level ++ (render level w ++ itemsTail level outer items rest)) := by
    rw [whole, skipSpace, List.dropWhile_cons_of_neg (by decide)]
  have comma_ne : CodePoint.ofChar ',' ≠ .ofChar ']' := by decide
  rw [elements, read]
  simp only [Option.bind_eq_bind, Option.bind_some, skipped, if_neg comma_ne, if_true,
    skipSpace_newline, skipSpace_render level plain, others]

/-- The text of a field after its opening quote -/
def fieldText (level outer : Nat) (key : Text) (v : Json) (fields : List (Text × Json))
    (rest : Text) : Text :=
  stringTail key ++ (text ": " ++ (render level v ++ fieldsTail level outer fields rest))

theorem value_object {fuel : Nat} {key : Text} {v : Json} {fields : List (Text × Json)}
    {level outer : Nat} {rest : Text} (distinct : (((key, v) :: fields).map (·.1)).Nodup)
    (read : members fuel (.ofChar '"' :: fieldText level outer key v fields rest) =
      some ((key, v) :: fields, rest)) :
    value (fuel + 1) (.ofChar '{' :: (newline level ++
      .ofChar '"' :: fieldText level outer key v fields rest)) =
        some (.obj ((key, v) :: fields), rest) := by
  have skipped : skipSpace (newline level ++ .ofChar '"' :: fieldText level outer key v fields rest) =
      .ofChar '"' :: fieldText level outer key v fields rest := by
    rw [skipSpace_newline, skipSpace, List.dropWhile_cons_of_neg (by decide)]
  have quote_ne : CodePoint.ofChar '"' ≠ .ofChar '}' := by decide
  rw [value, if_neg (by decide), if_neg (by decide), if_pos rfl, skipped]
  simp only [if_neg quote_ne, read, Option.bind_eq_bind, Option.bind_some, if_pos distinct]

theorem skipSpace_value (level : Nat) {v : Json} (plain : Plain v) (rest : Text) :
    skipSpace (.ofChar ' ' :: (render level v ++ rest)) = render level v ++ rest := by
  rw [skipSpace, List.dropWhile_cons_of_pos (by decide)]
  exact skipSpace_render level plain rest

theorem members_key {fuel : Nat} {key : Text} {v : Json} {fields : List (Text × Json)}
    {level outer : Nat} {rest : Text} (plain : Plain v)
    (read : value fuel (render level v ++ fieldsTail level outer fields rest) =
      some (v, fieldsTail level outer fields rest)) :
    members (fuel + 1) (.ofChar '"' :: fieldText level outer key v fields rest) =
      match skipSpace (fieldsTail level outer fields rest) with
      | [] => none
      | c :: rest =>
          if c = .ofChar '}' then some ([(key, v)], rest)
          else if c = .ofChar ',' then
            (members fuel (skipSpace rest)).bind fun (others, rest) =>
              some ((key, v) :: others, rest)
          else none := by
  have colon : skipSpace (text ": " ++ (render level v ++ fieldsTail level outer fields rest)) =
      .ofChar ':' :: .ofChar ' ' :: (render level v ++ fieldsTail level outer fields rest) := by
    have separator : text ": " = [.ofChar ':', .ofChar ' '] := by decide
    rw [separator, List.cons_append, skipSpace, List.dropWhile_cons_of_neg (by decide)]
    rfl
  rw [members, if_pos rfl, fieldText, string_stringTail]
  simp only [Option.bind_eq_bind, Option.bind_some, colon, if_true, skipSpace_value level plain,
    read] <;> rfl

theorem members_last {fuel : Nat} {key : Text} {v : Json} {level outer : Nat} {rest : Text}
    (plain : Plain v)
    (read : value fuel (render level v ++ fieldsTail level outer [] rest) =
      some (v, fieldsTail level outer [] rest)) :
    members (fuel + 1) (.ofChar '"' :: fieldText level outer key v [] rest) =
      some ([(key, v)], rest) := by
  have skipped : skipSpace (fieldsTail level outer [] rest) = .ofChar '}' :: rest := by
    show skipSpace (newline outer ++ .ofChar '}' :: rest) = _
    rw [skipSpace_newline, skipSpace, List.dropWhile_cons_of_neg (by decide)]
  rw [members_key plain read, skipped]
  simp only [if_true]

theorem members_more {fuel : Nat} {key name : Text} {v w : Json} {fields : List (Text × Json)}
    {level outer : Nat} {rest : Text} (plain : Plain v)
    (read : value fuel (render level v ++ fieldsTail level outer ((name, w) :: fields) rest) =
      some (v, fieldsTail level outer ((name, w) :: fields) rest))
    (others : members fuel (.ofChar '"' :: fieldText level outer name w fields rest) =
      some ((name, w) :: fields, rest)) :
    members (fuel + 1) (.ofChar '"' :: fieldText level outer key v ((name, w) :: fields) rest) =
      some ((key, v) :: (name, w) :: fields, rest) := by
  have whole : fieldsTail level outer ((name, w) :: fields) rest =
      .ofChar ',' :: (newline level ++ .ofChar '"' :: fieldText level outer name w fields rest) := by
    simp [fieldsTail, comma, renderFields, fieldText, quoted]
  have skipped : skipSpace (fieldsTail level outer ((name, w) :: fields) rest) =
      .ofChar ',' :: (newline level ++ .ofChar '"' :: fieldText level outer name w fields rest) := by
    rw [whole, skipSpace, List.dropWhile_cons_of_neg (by decide)]
  have quote : skipSpace (.ofChar '"' :: fieldText level outer name w fields rest) =
      .ofChar '"' :: fieldText level outer name w fields rest := by
    rw [skipSpace, List.dropWhile_cons_of_neg (by decide)]
  have comma_ne : CodePoint.ofChar ',' ≠ .ofChar '}' := by decide
  rw [members_key plain read, skipped]
  simp only [if_neg comma_ne, if_true, skipSpace_newline, quote, others, Option.bind_some]

/-- With enough fuel, each of the three readers gives back what was written. -/
theorem read_render (fuel : Nat) :
    (∀ (v : Json) (level : Nat) (rest : Text), Plain v → weight v ≤ fuel → Ends rest →
      value fuel (render level v ++ rest) = some (v, rest)) ∧
    (∀ (v : Json) (items : List Json) (level outer : Nat) (rest : Text),
      PlainItems (v :: items) → weightItems (v :: items) ≤ fuel →
        elements fuel (render level v ++ itemsTail level outer items rest) =
          some (v :: items, rest)) ∧
    (∀ (key : Text) (v : Json) (fields : List (Text × Json)) (level outer : Nat) (rest : Text),
      PlainFields ((key, v) :: fields) → weightFields ((key, v) :: fields) ≤ fuel →
        members fuel (.ofChar '"' :: fieldText level outer key v fields rest) =
          some ((key, v) :: fields, rest)) := by
  induction fuel with
  | zero =>
      refine ⟨fun v _ _ _ enough => ?_, fun _ _ _ _ _ _ enough => ?_, fun _ _ _ _ _ _ _ enough => ?_⟩
      · cases v <;> simp [weight] at enough
      · simp [weightItems] at enough
      · simp [weightFields] at enough
  | succ fuel ih =>
      obtain ⟨value_read, elements_read, members_read⟩ := ih
      refine ⟨?_, ?_, ?_⟩
      · intro v level rest plain enough ends
        cases v with
        | null => rfl
        | bool b => cases b <;> rfl
        | int i => exact (reads_int i).reads fuel rest ends
        | float d => exact Reads.reads plain fuel rest ends
        | str s =>
            show value (fuel + 1) (.ofChar '"' :: (stringTail s ++ rest)) = _
            rw [value, if_pos rfl, string_stringTail]
            rfl
        | arr items =>
            cases items with
            | nil => rfl
            | cons v items =>
                have whole : render level (.arr (v :: items)) ++ rest =
                    .ofChar '[' :: (newline (level + 1) ++
                      (render (level + 1) v ++ itemsTail (level + 1) level items rest)) := by
                  simp [render, renderItems, itemsTail, text]
                simp only [weight] at enough
                rw [whole]
                exact value_list plain.1 (elements_read v items _ _ rest plain (by omega))
        | obj fields =>
            cases fields with
            | nil => rfl
            | cons first fields =>
                obtain ⟨key, v⟩ := first
                have whole : render level (.obj ((key, v) :: fields)) ++ rest =
                    .ofChar '{' :: (newline (level + 1) ++ .ofChar '"' ::
                      fieldText (level + 1) level key v fields rest) := by
                  simp [render, renderFields, fieldsTail, fieldText, quoted, text]
                simp only [weight] at enough
                rw [whole]
                exact value_object plain.1 (members_read key v fields _ _ rest plain.2 (by omega))
      · intro v items level outer rest plain enough
        simp only [weightItems] at enough
        have read := value_read v level _ plain.1 (by omega) (ends_itemsTail level outer items rest)
        cases items with
        | nil => exact elements_last read
        | cons w items =>
            simp only [weightItems] at enough
            exact elements_more plain.2.1 read
              (elements_read w items level outer rest plain.2 (by simp only [weightItems]; omega))
      · intro key v fields level outer rest plain enough
        simp only [weightFields] at enough
        have read := value_read v level _ plain.1 (by omega) (ends_fieldsTail level outer fields rest)
        cases fields with
        | nil => exact members_last plain.1 read
        | cons next fields =>
            obtain ⟨name, w⟩ := next
            simp only [weightFields] at enough
            exact members_more plain.1 read (members_read name w fields level outer rest plain.2
              (by simp only [weightFields]; omega))

/-! ## Whole texts -/

/-- Induction over values: an array or object after all its members -/
@[elab_as_elim]
theorem induct {P : Json → Prop} (null : P .null) (bool : ∀ b, P (.bool b)) (int : ∀ i, P (.int i))
    (float : ∀ d, P (.float d)) (str : ∀ s, P (.str s))
    (arr : ∀ items, (∀ v ∈ items, P v) → P (.arr items))
    (obj : ∀ fields, (∀ f ∈ fields, P f.2) → P (.obj fields)) (v : Json) : P v :=
  @Json.rec P (fun items => ∀ v ∈ items, P v) (fun fields => ∀ f ∈ fields, P f.2) (fun f => P f.2)
    null bool int float str arr obj (by simp) (fun _ _ first others => by simpa using ⟨first, others⟩)
    (by simp) (fun _ _ first others => List.forall_mem_cons.mpr ⟨first, others⟩)
    (fun _ _ value => value) v

@[simp] theorem sortItems_eq (items : List Json) : sortItems items = items.map sortKeys := by
  induction items with
  | nil => rfl
  | cons v items ih => rw [sortItems, ih, List.map_cons]

@[simp] theorem sortFields_eq (fields : List (Text × Json)) :
    sortFields fields = fields.map fun f => (f.1, sortKeys f.2) := by
  induction fields with
  | nil => rfl
  | cons f fields ih => rw [sortFields, ih, List.map_cons]

theorem plainItems_iff (items : List Json) : PlainItems items ↔ ∀ v ∈ items, Plain v := by
  induction items with
  | nil => simp [PlainItems]
  | cons v items ih => simp [PlainItems, ih]

theorem plainFields_iff (fields : List (Text × Json)) :
    PlainFields fields ↔ ∀ f ∈ fields, Plain f.2 := by
  induction fields with
  | nil => simp [PlainFields]
  | cons f fields ih => rw [PlainFields, ih, List.forall_mem_cons]

theorem byKey_perm {α : Type} (fields : List (Text × α)) : List.Perm (byKey fields) fields :=
  List.perm_insertionSort _ fields

theorem plain_sortKeys {v : Json} (plain : Plain v) : Plain v.sortKeys := by
  induction v using induct with
  | null | bool | int | str => trivial
  | float => exact plain
  | arr items ih =>
      rw [sortKeys, sortItems_eq, Plain, plainItems_iff]
      intro w mem
      obtain ⟨v, there, rfl⟩ := List.mem_map.mp mem
      exact ih v there ((plainItems_iff items).mp plain v there)
  | obj fields ih =>
      obtain ⟨distinct, values⟩ := plain
      rw [sortKeys, sortFields_eq, Plain, plainFields_iff]
      have perm := byKey_perm (fields.map fun f => (f.1, sortKeys f.2))
      refine ⟨?_, fun g mem => ?_⟩
      · rw [(perm.map _).nodup_iff, List.map_map]
        exact distinct
      · obtain ⟨f, there, rfl⟩ := List.mem_map.mp (perm.mem_iff.mp mem)
        exact ih f there ((plainFields_iff fields).mp values f there)

theorem sortKeys_arr {items : List Json} (values : ∀ v ∈ items, v.sortKeys = v) :
    (Json.arr items).sortKeys = .arr items := by
  have same : items.map sortKeys = items.map id := List.map_congr_left values
  rw [sortKeys, sortItems_eq, same, List.map_id]

/-- Fields that stand in the order of their keys stay there. -/
theorem sortKeys_obj {fields : List (Text × Json)} (ordered : (fields.map (·.1)).Pairwise (· ≤ ·))
    (values : ∀ f ∈ fields, f.2.sortKeys = f.2) : (Json.obj fields).sortKeys = .obj fields := by
  have same : fields.map (fun f => (f.1, sortKeys f.2)) = fields.map id :=
    List.map_congr_left fun f mem => Prod.ext rfl (values f mem)
  rw [sortKeys, sortFields_eq, same, List.map_id]
  exact congrArg Json.obj (List.Pairwise.insertionSort_eq (List.pairwise_map.mp ordered))

theorem length_render_pos (level : Nat) {v : Json} (plain : Plain v) :
    1 ≤ (render level v).length := by
  obtain ⟨c, t, whole, -⟩ := starts_render level plain
  rw [whole]
  exact Nat.le_add_left 1 _

theorem weightItems_le {items : List Json} {level : Nat}
    (each : ∀ v ∈ items, weight v ≤ (render level v).length) :
    weightItems items ≤ (renderItems level items).length := by
  induction items with
  | nil => exact Nat.zero_le _
  | cons v items ih =>
      obtain ⟨first, others⟩ := List.forall_mem_cons.mp each
      have later := ih others
      simp only [weightItems, renderItems, newline, List.length_append, List.length_cons]
      omega

theorem weightFields_le {fields : List (Text × Json)} {level : Nat}
    (each : ∀ f ∈ fields, weight f.2 ≤ (render level f.2).length) :
    weightFields fields ≤ (renderFields level fields).length := by
  induction fields with
  | nil => exact Nat.zero_le _
  | cons f fields ih =>
      obtain ⟨first, others⟩ := List.forall_mem_cons.mp each
      have later := ih others
      simp only [weightFields, renderFields, newline, List.length_append, List.length_cons]
      omega

/-- A text is at least as long as the fuel that reading it takes. -/
theorem weight_le {v : Json} (plain : Plain v) (level : Nat) :
    weight v ≤ (render level v).length := by
  induction v using induct generalizing level with
  | null | bool | int | float | str => exact length_render_pos level plain
  | arr items ih =>
      have each := fun v mem => ih v mem ((plainItems_iff items).mp plain v mem) (level + 1)
      have inner := weightItems_le each
      cases items with
      | nil => exact length_render_pos level plain
      | cons v items =>
          simp only [weight, render, List.length_append, List.length_cons]
          omega
  | obj fields ih =>
      have each := fun f mem => ih f mem ((plainFields_iff fields).mp plain.2 f mem) (level + 1)
      have inner := weightFields_le each
      cases fields with
      | nil => exact length_render_pos level plain
      | cons f fields =>
          simp only [weight, render, List.length_append, List.length_cons]
          omega

/-- The canonical text of a value is read as this value with sorted fields. -/
theorem loads_canonical_json {v : Json} (plain : Plain v) :
    loads (canonical_json v) = some v.sortKeys := by
  have sorted := plain_sortKeys plain
  have long := weight_le sorted 0
  have read := (read_render (canonical_json v).length.succ).1 v.sortKeys 0 (text "\n") sorted
    (by rw [canonical_json, List.length_append]; omega) (ends_cons (by decide) _)
  rw [loads, canonical_json, skipSpace_render 0 sorted]
  rw [canonical_json] at read
  rw [read]
  rfl

theorem sortKeys_eq_of_canonical_json {v w : Json} (plain : Plain v) (plain' : Plain w)
    (same : canonical_json v = canonical_json w) : v.sortKeys = w.sortKeys := by
  have left := loads_canonical_json plain
  rw [same, loads_canonical_json plain', Option.some.injEq] at left
  exact left.symm

end Json
