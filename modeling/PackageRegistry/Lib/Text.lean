import Mathlib.Data.List.Lex
import Mathlib.Data.List.Induction
import Mathlib.Data.Fin.Basic

/-! # Text as sequences of code points

A string is the list of its code points. Surrogates are code points like any
other here, so a string need not be encodable as UTF-8. Comparison is by code
point, first difference first.
-/

abbrev CodePoint := Fin 0x110000

abbrev Text := List CodePoint

namespace CodePoint

def ofNat (n : Nat) : CodePoint := Fin.ofNat 0x110000 n

def ofChar (c : Char) : CodePoint := ofNat c.toNat

def isDigit (c : CodePoint) : Bool := ofChar '0' ≤ c && c ≤ ofChar '9'

def isLower (c : CodePoint) : Bool := ofChar 'a' ≤ c && c ≤ ofChar 'z'

def isUpper (c : CodePoint) : Bool := ofChar 'A' ≤ c && c ≤ ofChar 'Z'

def isAscii (c : CodePoint) : Bool := c.val < 128

/-- The members of `[0-9a-f]`. -/
def isHexLower (c : CodePoint) : Bool := c.isDigit || (ofChar 'a' ≤ c && c ≤ ofChar 'f')

/-- The members of `[0-9A-Za-z-]`. -/
def isIdentifierChar (c : CodePoint) : Bool :=
  c.isDigit || c.isLower || c.isUpper || c == ofChar '-'

/-- Unicode white space as `str.isspace` and `str.strip` see it. -/
def isSpace (c : CodePoint) : Bool :=
  (0x09 ≤ c.val && c.val ≤ 0x0d) || (0x1c ≤ c.val && c.val ≤ 0x20) || c.val == 0x85 ||
    c.val == 0xa0 || c.val == 0x1680 || (0x2000 ≤ c.val && c.val ≤ 0x200a) || c.val == 0x2028 ||
    c.val == 0x2029 || c.val == 0x202f || c.val == 0x205f || c.val == 0x3000

theorem val_ofChar (c : Char) : (ofChar c).val = c.toNat := by
  have small : c.toNat < 0x110000 := by
    rcases c.valid with low | ⟨-, high⟩
    · exact Nat.lt_of_lt_of_le (m := 0xd800) (by simpa using low) (by decide)
    · simpa using high
  simp only [ofChar, ofNat, Fin.ofNat, Nat.mod_eq_of_lt small]

theorem isDigit_iff (c : CodePoint) : c.isDigit = true ↔ 48 ≤ c.val ∧ c.val ≤ 57 := by
  simp only [isDigit, Bool.and_eq_true, decide_eq_true_eq, Fin.le_def, val_ofChar]
  rfl

theorem isLower_iff (c : CodePoint) : c.isLower = true ↔ 97 ≤ c.val ∧ c.val ≤ 122 := by
  simp only [isLower, Bool.and_eq_true, decide_eq_true_eq, Fin.le_def, val_ofChar]
  rfl

theorem isUpper_iff (c : CodePoint) : c.isUpper = true ↔ 65 ≤ c.val ∧ c.val ≤ 90 := by
  simp only [isUpper, Bool.and_eq_true, decide_eq_true_eq, Fin.le_def, val_ofChar]
  rfl

theorem eq_ofChar_iff (c : CodePoint) (d : Char) : c = ofChar d ↔ c.val = d.toNat := by
  rw [Fin.ext_iff, val_ofChar]

theorem isDigit_ofChar {c : Char} (h : c.isDigit = true) : (ofChar c).isDigit = true := by
  have range : 48 ≤ c.toNat ∧ c.toNat ≤ 57 := by
    simp only [Char.isDigit, Bool.and_eq_true, decide_eq_true_eq] at h
    exact ⟨UInt32.le_iff_toNat_le.mp h.1, UInt32.le_iff_toNat_le.mp h.2⟩
  rw [isDigit_iff, val_ofChar]
  exact range

end CodePoint

/-! Texts are ordered code point by code point, and serve as keys. -/

instance transOrdText : Std.TransOrd Text := inferInstance

instance lawfulEqOrdText : Std.LawfulEqOrd Text := inferInstance

theorem Text.lt_of_compare {s t : Text} (h : compare s t = .lt) : s < t := by
  induction s generalizing t with
  | nil =>
      cases t with
      | nil => cases h
      | cons d t => exact List.nil_lt_cons d t
  | cons c s ih =>
      cases t with
      | nil => cases h
      | cons d t =>
          rw [List.compare_cons_cons, Ordering.then_eq_lt] at h
          rcases h with first | ⟨same, rest⟩
          · exact List.cons_lt_cons_iff.mpr (.inl (Nat.compare_eq_lt.mp first))
          · exact List.cons_lt_cons_iff.mpr (.inr ⟨Std.LawfulEqOrd.eq_of_compare same, ih rest⟩)

/-- The text of a literal. -/
def text (literal : String) : Text :=
  literal.toList.map CodePoint.ofChar

namespace Text

/-- Two texts in one: every character of the first is marked. -/
def pair (s t : Text) : Text := s.flatMap (fun c => [.ofChar '+', c]) ++ .ofChar '.' :: t

theorem pair_inj {s t s' t' : Text} : pair s t = pair s' t' ↔ s = s' ∧ t = t' := by
  constructor
  · intro same
    induction s generalizing s' with
    | nil =>
        cases s' with
        | nil => exact ⟨rfl, (List.cons.inj same).2⟩
        | cons c s' => exact absurd (List.cons.inj same).1 (by decide)
    | cons c s ih =>
        cases s' with
        | nil => exact absurd (List.cons.inj same).1 (by decide)
        | cons c' s' =>
            obtain ⟨here, rest⟩ := List.cons.inj (List.cons.inj same).2
            obtain ⟨first, second⟩ := ih rest
            exact ⟨by rw [here, first], second⟩
  · rintro ⟨rfl, rfl⟩
    rfl

/-- `str.split` at every occurrence of one separator: always at least one piece. -/
def splitOn (sep : CodePoint) : Text → List Text
  | [] => [[]]
  | c :: rest =>
      if c = sep then [] :: splitOn sep rest
      else
        match splitOn sep rest with
        | [] => [[c]]
        | piece :: pieces => (c :: piece) :: pieces

/-- `str.partition`: before the first separator, and what follows it if there is one. -/
def partition (sep : CodePoint) : Text → Text × Option Text
  | [] => ([], none)
  | c :: rest =>
      if c = sep then ([], some rest)
      else
        let (before, after) := partition sep rest
        (c :: before, after)

/-- `str.rpartition`, with the head only if the separator occurs. -/
def rpartition (sep : CodePoint) (t : Text) : Option Text × Text :=
  match partition sep t.reverse with
  | (tail, none) => (none, tail.reverse)
  | (tail, some head) => (some head.reverse, tail.reverse)

def startsWith (pre t : Text) : Bool := pre.isPrefixOf t

def endsWith (post t : Text) : Bool := post.isSuffixOf t

def stripLeft (t : Text) : Text := t.dropWhile CodePoint.isSpace

def strip (t : Text) : Text := (stripLeft (stripLeft t).reverse).reverse

/-- Decimal digits of a number, as `str(int)` and `json.dumps` write it. -/
def ofNat (n : Nat) : Text := (Nat.toDigits 10 n).map CodePoint.ofChar

/-- The value of a string of ASCII digits, as `int` reads it. -/
def toNat (t : Text) : Nat :=
  t.foldl (fun acc c => acc * 10 + (c.val - 48)) 0

/-! ## Decimal digits -/

theorem isDigit_ofNat (n : Nat) : ∀ c ∈ ofNat n, c.isDigit = true := by
  intro c mem
  obtain ⟨d, inDigits, rfl⟩ := List.mem_map.mp mem
  exact CodePoint.isDigit_ofChar (Nat.isDigit_of_mem_toDigits (by decide) (by decide) inDigits)

theorem ofNat_ne_nil (n : Nat) : ofNat n ≠ [] := by
  simp [ofNat, Nat.toDigits_ne_nil]

@[simp] theorem toNat_ofNat (n : Nat) : toNat (ofNat n) = n := by
  have same : toNat (ofNat n) = Nat.ofDigitChars 10 (Nat.toDigits 10 n) 0 := by
    rw [toNat, ofNat, List.foldl_map, Nat.ofDigitChars_eq_foldl]
    congr 1
    funext acc c
    rw [CodePoint.val_ofChar, Nat.mul_comm]
    rfl
  rw [same, Nat.ofDigitChars_ten_toDigits]

/-- A positive number has no leading zero. -/
theorem head_ofNat {n : Nat} (pos : 0 < n) : ∀ c ∈ (ofNat n).head?, c ≠ .ofChar '0' := by
  induction n using Nat.strongRecOn with
  | ind n ih =>
      by_cases small : n < 10
      · rw [ofNat, Nat.toDigits_of_lt_base small]
        intro c head zero
        have digit : n.digitChar.toNat = 48 + n := Nat.toNat_digitChar_of_lt_ten small
        cases head
        have value := congrArg Fin.val zero
        rw [CodePoint.val_ofChar, digit] at value
        have value : 48 + n = 48 := value
        omega
      · have large : 10 ≤ n := Nat.not_lt.mp small
        have before := ih (n / 10) (by omega) (by omega)
        have whole : ofNat n = ofNat (n / 10) ++ [.ofChar (n % 10).digitChar] := by
          simp only [ofNat, Nat.toDigits_of_base_le (by decide) large, List.map_append,
            List.map_cons, List.map_nil]
        rw [whole, List.head?_append_of_ne_nil _ (ofNat_ne_nil (n / 10))]
        exact before

theorem toNat_append_digit (t : Text) (c : CodePoint) :
    toNat (t ++ [c]) = toNat t * 10 + (c.val - 48) := by
  simp [toNat]

/-- Digits without a leading zero are the ones that the number is written with. -/
theorem ofNat_toNat {t : Text} (digits : ∀ c ∈ t, c.isDigit = true) (nonempty : t ≠ [])
    (noZero : t.head? ≠ some (.ofChar '0') ∨ t.length = 1) : ofNat (toNat t) = t := by
  induction t using List.reverseRecOn with
  | nil => exact absurd rfl nonempty
  | append_singleton front c ih =>
      have digit : c.isDigit = true := digits c (by simp)
      obtain ⟨low, high⟩ := (CodePoint.isDigit_iff c).mp digit
      have last : CodePoint.ofChar (Nat.digitChar (c.val - 48)) = c := by
        apply Fin.ext
        rw [CodePoint.val_ofChar, Nat.toNat_digitChar_of_lt_ten (by omega)]
        omega
      rw [toNat_append_digit]
      by_cases single : front = []
      · subst single
        simp only [ofNat, toNat, List.foldl_nil, Nat.zero_mul, Nat.zero_add,
          Nat.toDigits_of_lt_base (show c.val - 48 < 10 by omega), List.map_cons, List.map_nil, last,
          List.nil_append]
      · have noZero' : front.head? ≠ some (.ofChar '0') := by
          rcases noZero with first | short
          · rwa [List.head?_append_of_ne_nil _ single] at first
          · have positive := List.length_pos_of_ne_nil single
            rw [List.length_append, List.length_singleton] at short
            omega
        have front_eq := ih (fun d mem => digits d (by simp [mem])) single (.inl noZero')
        have positive : 0 < toNat front := by
          by_contra zero
          have zero : toNat front = 0 := by omega
          rw [zero] at front_eq
          apply noZero'
          rw [← front_eq]
          rfl
        have large : 10 ≤ toNat front * 10 + (c.val - 48) := by omega
        have quotient : (toNat front * 10 + (c.val - 48)) / 10 = toNat front := by omega
        have remainder : (toNat front * 10 + (c.val - 48)) % 10 = c.val - 48 := by omega
        rw [ofNat, Nat.toDigits_of_base_le (by decide) large, quotient, remainder, List.map_append,
          List.map_cons, List.map_nil, last]
        exact congrArg (· ++ [c]) front_eq

/-! ## Separators -/

theorem partition_eq {sep : CodePoint} (t : Text) :
    t = (partition sep t).1 ++ (match (partition sep t).2 with
      | some after => sep :: after
      | none => []) := by
  induction t with
  | nil => rfl
  | cons c rest ih =>
      by_cases here : c = sep
      · simp [partition, here]
      · rw [partition, if_neg here]
        exact congrArg (c :: ·) ih

theorem partition_append {sep : CodePoint} {before : Text} (after : Text) (absent : sep ∉ before) :
    partition sep (before ++ sep :: after) = (before, some after) := by
  induction before with
  | nil => simp [partition]
  | cons c rest ih =>
      have other : c ≠ sep := fun same => absent (by simp [same])
      rw [List.cons_append, partition, if_neg other, ih fun mem => absent (by simp [mem])]

/-- What follows a separator does not matter for what stands before the first. -/
theorem partition_front (before after : Text) (sep : CodePoint) :
    (partition sep (before ++ sep :: after)).1 = (partition sep before).1 := by
  induction before with
  | nil => simp [partition]
  | cons c rest ih =>
      by_cases here : c = sep
      · simp [partition, here]
      · rw [List.cons_append, partition, if_neg here, partition, if_neg here]
        exact congrArg (c :: ·) ih

theorem splitOn_ne_nil (sep : CodePoint) (t : Text) : splitOn sep t ≠ [] := by
  cases t with
  | nil => simp [splitOn]
  | cons c rest =>
      rw [splitOn]
      split
      · simp
      · split <;> simp

theorem intercalate_splitOn (sep : CodePoint) (t : Text) :
    List.intercalate [sep] (splitOn sep t) = t := by
  induction t with
  | nil => rfl
  | cons c rest ih =>
      rw [splitOn]
      split
      · rename_i here
        rw [List.intercalate_cons_of_ne_nil (splitOn_ne_nil sep rest), ih, here]
        rfl
      · cases pieces : splitOn sep rest with
        | nil => exact absurd pieces (splitOn_ne_nil sep rest)
        | cons piece more =>
            rw [pieces] at ih
            cases more with
            | nil =>
                rw [List.intercalate_singleton] at ih
                rw [List.intercalate_singleton, ih]
            | cons piece' more =>
                rw [List.intercalate_cons_cons] at ih
                rw [List.intercalate_cons_cons, ← ih]
                rfl

/-- The characters of a text are those of its pieces and the separators. -/
theorem mem_of_splitOn (sep : CodePoint) {t : Text} {c : CodePoint} (mem : c ∈ t) :
    c = sep ∨ ∃ piece ∈ splitOn sep t, c ∈ piece := by
  induction t with
  | nil => cases mem
  | cons d rest ih =>
      rw [splitOn]
      split
      · rename_i here
        rcases List.mem_cons.mp mem with rfl | inRest
        · exact .inl here
        · exact (ih inRest).imp id fun ⟨piece, among, inside⟩ =>
            ⟨piece, List.mem_cons_of_mem _ among, inside⟩
      · cases pieces : splitOn sep rest with
        | nil => exact absurd pieces (splitOn_ne_nil sep rest)
        | cons first more =>
            rw [pieces] at ih
            rcases List.mem_cons.mp mem with rfl | inRest
            · exact .inr ⟨c :: first, by simp, by simp⟩
            · refine (ih inRest).imp id fun ⟨piece, among, inside⟩ => ?_
              rcases List.mem_cons.mp among with rfl | later
              · exact ⟨d :: piece, by simp, by simp [inside]⟩
              · exact ⟨piece, by simp [later], inside⟩

theorem splitOn_of_absent {sep : CodePoint} {t : Text} (absent : sep ∉ t) : splitOn sep t = [t] := by
  induction t with
  | nil => rfl
  | cons c rest ih =>
      have other : c ≠ sep := fun same => absent (by simp [same])
      rw [splitOn, if_neg other, ih fun mem => absent (by simp [mem])]

theorem splitOn_append {sep : CodePoint} {before : Text} (absent : sep ∉ before) (rest : Text) :
    splitOn sep (before ++ sep :: rest) = before :: splitOn sep rest := by
  induction before with
  | nil => rw [List.nil_append, splitOn, if_pos rfl]
  | cons c before ih =>
      have other : c ≠ sep := fun same => absent (by simp [same])
      rw [List.cons_append, splitOn, if_neg other, ih fun mem => absent (by simp [mem])]

/-- Pieces without the separator are found again. -/
theorem splitOn_intercalate {sep : CodePoint} {pieces : List Text} (some_ : pieces ≠ [])
    (absent : ∀ piece ∈ pieces, sep ∉ piece) :
    splitOn sep (List.intercalate [sep] pieces) = pieces := by
  induction pieces with
  | nil => exact absurd rfl some_
  | cons piece more ih =>
      rw [List.forall_mem_cons] at absent
      cases more with
      | nil =>
          rw [List.intercalate_singleton]
          exact splitOn_of_absent absent.1
      | cons piece' more =>
          rw [List.intercalate_cons_cons, List.append_assoc, List.singleton_append,
            splitOn_append absent.1, ih (by simp) absent.2]

/-- The pieces of a text determine it. -/
theorem splitOn_injective (sep : CodePoint) : Function.Injective (splitOn sep) := by
  intro s t equal
  rw [← intercalate_splitOn sep s, ← intercalate_splitOn sep t, equal]

/-! ## Texts without the separator -/

theorem partition_absent {sep : CodePoint} {t : Text} (absent : sep ∉ t) :
    partition sep t = (t, none) := by
  induction t with
  | nil => rfl
  | cons c rest ih =>
      have other : c ≠ sep := fun same => absent (by simp [same])
      rw [partition, if_neg other, ih fun mem => absent (by simp [mem])]

theorem rpartition_absent {sep : CodePoint} {t : Text} (absent : sep ∉ t) :
    rpartition sep t = (none, t) := by
  rw [rpartition, partition_absent (by simpa using absent)]
  simp

theorem separator_absent (sep : CodePoint) (t : Text) :
    ∀ piece ∈ splitOn sep t, sep ∉ piece := by
  induction t with
  | nil => simp [splitOn]
  | cons c rest ih =>
      rw [splitOn]
      split
      · intro piece mem
        rcases List.mem_cons.mp mem with rfl | later
        · exact List.not_mem_nil
        · exact ih piece later
      · rename_i other
        split
        · rename_i empty
          exact absurd empty (splitOn_ne_nil sep rest)
        · rename_i first others pieces
          rw [pieces, List.forall_mem_cons] at ih
          rw [List.forall_mem_cons, List.mem_cons, not_or]
          exact ⟨⟨Ne.symm other, ih.1⟩, ih.2⟩

theorem startsWith_intercalate {pieces : List Text} {sep : CodePoint} {name : Text}
    (absent : ∀ piece ∈ pieces, sep ∉ piece) (free : sep ∉ name) :
    startsWith (name ++ [sep]) ([sep].intercalate pieces) = true ↔
      ∃ rest, pieces = name :: rest ∧ rest ≠ [] := by
  rw [startsWith, List.isPrefixOf_iff_prefix]
  constructor
  · rintro ⟨more, shape⟩
    have some_ : pieces ≠ [] := by
      rintro rfl
      simp [List.intercalate] at shape
    have split := congrArg (splitOn sep) shape
    rw [splitOn_intercalate some_ absent, List.append_assoc, List.singleton_append,
      splitOn_append free] at split
    exact ⟨_, split.symm, splitOn_ne_nil sep more⟩
  · rintro ⟨rest, rfl, below⟩
    obtain ⟨second, others, rfl⟩ := List.exists_cons_of_ne_nil below
    exact ⟨[sep].intercalate (second :: others), by simp [List.intercalate]⟩

/-! ## Stripping -/

theorem cut_congr {p q : CodePoint → Bool} {t : Text} (same : ∀ c ∈ t, p c = q c) :
    t.takeWhile p = t.takeWhile q ∧ t.dropWhile p = t.dropWhile q := by
  induction t with
  | nil => exact ⟨rfl, rfl⟩
  | cons c rest ih =>
      rw [List.forall_mem_cons] at same
      obtain ⟨before, after⟩ := ih same.2
      rw [List.takeWhile_cons, List.takeWhile_cons, List.dropWhile_cons, List.dropWhile_cons,
        same.1, before, after]
      exact ⟨rfl, rfl⟩

theorem stripLeft_of_head {t : Text} (first : ∀ c ∈ t.head?, c.isSpace = false) : stripLeft t = t := by
  cases t with
  | nil => rfl
  | cons c rest =>
      rw [stripLeft, List.dropWhile_cons, first c rfl]
      rfl

theorem stripLeft_append {spaces : Text} (blank : ∀ c ∈ spaces, c.isSpace = true) (t : Text) :
    stripLeft (spaces ++ t) = stripLeft t :=
  List.dropWhile_append_of_pos blank

theorem strip_of_ends {t : Text} (first : ∀ c ∈ t.head?, c.isSpace = false)
    (last : ∀ c ∈ t.getLast?, c.isSpace = false) : strip t = t := by
  have reversed : ∀ c ∈ t.reverse.head?, c.isSpace = false := by
    rwa [List.head?_reverse]
  rw [strip, stripLeft_of_head first, stripLeft_of_head reversed, List.reverse_reverse]

/-- White space around a text is stripped, and nothing else if the text has none at its ends. -/
theorem strip_around {before t after : Text} (blank : ∀ c ∈ before, c.isSpace = true)
    (blank' : ∀ c ∈ after, c.isSpace = true) (nonempty : t ≠ [])
    (first : ∀ c ∈ t.head?, c.isSpace = false) (last : ∀ c ∈ t.getLast?, c.isSpace = false) :
    strip (before ++ t ++ after) = t := by
  have first' : ∀ c ∈ (t ++ after).head?, c.isSpace = false := by
    rwa [List.head?_append_of_ne_nil _ nonempty]
  have reversed : ∀ c ∈ t.reverse.head?, c.isSpace = false := by
    rwa [List.head?_reverse]
  have blank'' : ∀ c ∈ after.reverse, c.isSpace = true := by
    intro c mem
    exact blank' c (List.mem_reverse.mp mem)
  rw [strip, List.append_assoc, stripLeft_append blank, stripLeft_of_head first',
    List.reverse_append, stripLeft_append blank'', stripLeft_of_head reversed, List.reverse_reverse]

theorem strip_isPrefix (t : Text) : strip t <+: stripLeft t := by
  have tail := List.dropWhile_suffix CodePoint.isSpace (l := (stripLeft t).reverse)
  exact List.reverse_suffix.mp (by rwa [strip, List.reverse_reverse])

theorem head_strip (t : Text) : ∀ c ∈ (strip t).head?, c.isSpace = false := by
  intro c first
  obtain ⟨rest, whole⟩ := strip_isPrefix t
  have head : (stripLeft t).head? = some c := by
    rw [← whole, List.head?_append, Option.mem_def.mp first, Option.some_or]
  have dropped := List.head?_dropWhile_not CodePoint.isSpace t
  rw [← stripLeft, head] at dropped
  simpa using dropped

theorem last_strip (t : Text) : ∀ c ∈ (strip t).getLast?, c.isSpace = false := by
  intro c last
  rw [strip, List.getLast?_reverse] at last
  have dropped := List.head?_dropWhile_not CodePoint.isSpace (stripLeft t).reverse
  rw [← stripLeft, Option.mem_def.mp last] at dropped
  simpa using dropped

theorem getLast_of_strip {t : Text} (h : t = strip t) : ∀ c ∈ t.getLast?, c.isSpace = false := by
  rw [h]
  exact last_strip t

theorem strip_strip (t : Text) : strip (strip t) = strip t :=
  strip_of_ends (head_strip t) (last_strip t)

theorem mem_of_mem_strip {t : Text} {c : CodePoint} (mem : c ∈ strip t) : c ∈ t :=
  (List.dropWhile_suffix _).subset ((strip_isPrefix t).subset mem)

/-- The last separator is the one before a text without it. -/
theorem rpartition_append {sep : CodePoint} (before : Text) {after : Text} (absent : sep ∉ after) :
    rpartition sep (before ++ sep :: after) = (some before, after) := by
  have reversed : (before ++ sep :: after).reverse = after.reverse ++ sep :: before.reverse := by
    simp
  rw [rpartition, reversed, partition_append before.reverse (by simpa using absent)]
  simp

theorem rpartition_some {sep : CodePoint} {t before after : Text}
    (split : rpartition sep t = (some before, after)) : t = before ++ sep :: after := by
  have whole := @partition_eq sep t.reverse
  rw [rpartition] at split
  split at split
  · cases split
  · rename_i tail head parts
    cases split
    rw [parts] at whole
    rw [← List.reverse_reverse t, whole]
    simp

end Text
