import PackageRegistry.Lib.DoubleRounding
import PackageRegistry.Lib.JsonRoundTrip

/-! # Floats are read back

What `float.__repr__` writes is read as the same float: the layout of its digits changes
nothing about their value, and the digits determine the float.
-/

namespace Text

theorem toNat_append (t t' : Text) : toNat (t ++ t') = toNat t * 10 ^ t'.length + toNat t' := by
  induction t' using List.reverseRecOn with
  | nil => simp [toNat]
  | append_singleton front c ih =>
      rw [← List.append_assoc, toNat_append_digit, toNat_append_digit, ih, List.length_append,
        List.length_singleton, Nat.pow_succ]
      ring

@[simp] theorem toNat_zeros (k : Nat) : toNat (List.replicate k (.ofChar '0')) = 0 := by
  induction k with
  | zero => rfl
  | succ k ih =>
      rw [List.replicate_succ', toNat_append_digit, ih]
      rfl

end Text

namespace Json

open Double (Representable)

/-! ## Parts of a numeral -/

/-- What may follow a run of digits -/
def Stops (rest : Text) : Prop := ∀ c ∈ rest.head?, c.isDigit = false

theorem Ends.stops {rest : Text} (h : Ends rest) : Stops rest := fun c head => (h c head).1

theorem Stops.digits {rest digits : Text} (h : Stops rest) (all : ∀ c ∈ digits, c.isDigit = true) :
    (digits ++ rest).takeWhile CodePoint.isDigit = digits ∧
      (digits ++ rest).dropWhile CodePoint.isDigit = rest := by
  have stop : rest.takeWhile CodePoint.isDigit = [] ∧ rest.dropWhile CodePoint.isDigit = rest := by
    cases rest with
    | nil => exact ⟨rfl, rfl⟩
    | cons c rest =>
        have noDigit : c.isDigit = false := h c rfl
        simp [noDigit]
  rw [List.takeWhile_append_of_pos all, List.dropWhile_append_of_pos all, stop.1, stop.2]
  simp

/-- `0|[1-9][0-9]*` -/
structure IsInteger (t : Text) : Prop where
  digits : ∀ c ∈ t, c.isDigit = true
  nonempty : t ≠ []
  noZero : t.head? ≠ some (.ofChar '0') ∨ t = text "0"

theorem IsInteger.read {t rest : Text} (h : IsInteger t) (stops : Stops rest) :
    integer (t ++ rest) = some (t, rest) := by
  rcases h.noZero with noZero | rfl
  · cases t with
    | nil => exact absurd rfl h.nonempty
    | cons c t =>
        have other : c ≠ .ofChar '0' := fun same => noZero (congrArg some same)
        have taken := stops.digits h.digits
        rw [List.cons_append] at taken ⊢
        rw [integer, if_neg other, if_pos (h.digits c (by simp)), taken.1, taken.2]
  · rfl

theorem fraction_digits {digits rest : Text} (all : ∀ c ∈ digits, c.isDigit = true)
    (nonempty : digits ≠ []) (stops : Stops rest) :
    fraction (.ofChar '.' :: (digits ++ rest)) = (some digits, rest) := by
  cases digits with
  | nil => exact absurd rfl nonempty
  | cons d digits =>
      have taken := stops.digits all
      rw [List.cons_append] at taken ⊢
      rw [fraction, if_pos ⟨rfl, all d (by simp)⟩, taken.1, taken.2]

theorem fraction_other {c : CodePoint} (other : c ≠ .ofChar '.') (rest : Text) :
    fraction (c :: rest) = (none, c :: rest) := by
  cases rest with
  | nil => rfl
  | cons d rest => rw [fraction, if_neg fun both => other both.1]

/-- `e+09` or `e-09` -/
theorem exponent_digits {digits rest : Text} (negative : Bool)
    (all : ∀ c ∈ digits, c.isDigit = true) (nonempty : digits ≠ []) (ends : Ends rest) :
    exponent (.ofChar 'e' :: (text (if negative then "-" else "+") ++ (digits ++ rest))) =
      (some (if negative then -(Text.toNat digits : Int) else Text.toNat digits), rest) := by
  have signed : exponentSign (text (if negative then "-" else "+") ++ (digits ++ rest)) =
      (negative, digits ++ rest) := by
    cases negative <;> rfl
  have taken := ends.digits all
  have first : (digits ++ rest).head?.any CodePoint.isDigit = true := by
    cases digits with
    | nil => exact absurd rfl nonempty
    | cons d digits => exact all d (by simp)
  rw [exponent, if_pos (.inl rfl), signed]
  simp only [first, if_true, taken.1, taken.2]

/-- The sign in front of an unsigned numeral -/
theorem sign_minus (negative : Bool) {t : Text} (h : ∃ c rest, t = c :: rest ∧ c.isDigit = true) :
    sign (text (if negative then "-" else "") ++ t) = (negative, t) := by
  obtain ⟨c, rest, rfl, digit⟩ := h
  have other : c ≠ .ofChar '-' := by
    rintro rfl
    exact absurd digit (by decide)
  cases negative with
  | true => rfl
  | false => exact if_neg other

theorem IsInteger.head {t : Text} (h : IsInteger t) (rest : Text) :
    ∃ c rest', t ++ rest = c :: rest' ∧ c.isDigit = true := by
  cases t with
  | nil => exact absurd rfl h.nonempty
  | cons c t => exact ⟨c, t ++ rest, rfl, h.digits c (by simp)⟩

/-! ## Numerals of floats -/

/-- A numeral without a sign that is read as the float `digits * 10 ^ exponent` -/
structure Numeral (t : Text) (digits : Nat) (exponent : Int) : Prop where
  starts : ∃ c rest, t = c :: rest ∧ c.isDigit = true
  reads : ∀ negative rest, Ends rest →
    number (text (if negative then "-" else "") ++ (t ++ rest)) =
      some (.float (.ofDecimal negative digits exponent), rest)

/-- Digits, a point and decimals -/
theorem numeral_point {whole decimals : Text} (integer : IsInteger whole)
    (all : ∀ c ∈ decimals, c.isDigit = true) (nonempty : decimals ≠ []) :
    Numeral (whole ++ .ofChar '.' :: decimals) (Text.toNat (whole ++ decimals))
      (-(decimals.length : Int)) where
  starts := integer.head _
  reads negative rest ends := by
    have stops : Stops (.ofChar '.' :: (decimals ++ rest)) := by
      rintro c ⟨⟩
      decide
    rw [List.append_assoc, List.cons_append, number, sign_minus negative (integer.head _)]
    simp only [integer.read stops, fraction_digits all nonempty ends.stops, ends.exponent,
      Option.getD_none, Int.zero_sub]

/-- Digits and an exponent, with decimals or without -/
theorem numeral_exponent {whole decimals power : Text} (negative : Bool) (integer : IsInteger whole)
    (all : ∀ c ∈ decimals, c.isDigit = true) (powers : ∀ c ∈ power, c.isDigit = true)
    (nonempty : power ≠ []) :
    Numeral (whole ++ ((if decimals = [] then [] else .ofChar '.' :: decimals) ++
        .ofChar 'e' :: (text (if negative then "-" else "+") ++ power)))
      (Text.toNat (whole ++ decimals))
      ((if negative then -(Text.toNat power : Int) else Text.toNat power) - decimals.length) where
  starts := integer.head _
  reads minus rest ends := by
    have scaled := exponent_digits negative powers nonempty ends
    have stops : Stops (.ofChar 'e' :: (text (if negative then "-" else "+") ++ (power ++ rest))) := by
      rintro c ⟨⟩
      decide
    rw [List.append_assoc, number, sign_minus minus (integer.head _)]
    by_cases bare : decimals = []
    · have nothing := fraction_other (c := .ofChar 'e') (by decide)
        (text (if negative then "-" else "+") ++ (power ++ rest))
      simp only [bare, if_true, List.nil_append, List.cons_append, List.append_assoc,
        integer.read stops, nothing, scaled, List.append_nil, List.length_nil, Int.natCast_zero,
        Int.sub_zero]
    · have point : Stops (.ofChar '.' :: (decimals ++ .ofChar 'e' ::
          (text (if negative then "-" else "+") ++ (power ++ rest)))) := by
        rintro c ⟨⟩
        decide
      simp only [if_neg bare, List.cons_append, List.append_assoc, integer.read point,
        fraction_digits all bare stops, scaled, Option.getD_some]

/-! ## The layout of `repr` -/

/-- Digits that do not begin with a zero -/
structure IsSignificand (t : Text) : Prop where
  digits : ∀ c ∈ t, c.isDigit = true
  nonempty : t ≠ []
  noZero : t.head? ≠ some (.ofChar '0')

theorem IsSignificand.isInteger {t : Text} (h : IsSignificand t) (more : Text)
    (all : ∀ c ∈ more, c.isDigit = true) : IsInteger (t ++ more) where
  digits c mem := (List.mem_append.mp mem).elim (h.digits c) (all c)
  nonempty := by simp [h.nonempty]
  noZero := by
    rw [List.head?_append_of_ne_nil _ h.nonempty]
    exact .inl h.noZero

theorem isDigit_zeros (k : Nat) :
    ∀ c ∈ List.replicate k (CodePoint.ofChar '0'), c.isDigit = true := by
  intro c mem
  rw [List.eq_of_mem_replicate mem]
  decide

theorem isInteger_zero : IsInteger (text "0") where
  digits := isDigit_zeros 1
  nonempty := by decide
  noZero := .inr rfl

theorem toNat_zero : Text.toNat (text "0") = 0 := rfl

theorem numeral_eq {t t' : Text} {digits digits' : Nat} {exponent exponent' : Int}
    (h : Numeral t digits exponent) (sameText : t' = t) (sameDigits : digits' = digits)
    (sameExponent : exponent' = exponent) : Numeral t' digits' exponent' := by
  rw [sameText, sameDigits, sameExponent]
  exact h

/-- The layout of some digits is a numeral with their value: zeros that it adds before the
    point are taken back by the exponent. -/
def LaidOut (t : Text) (point : Int) (laid : Text) : Prop :=
  ∃ (zeros : Nat) (exponent : Int), Numeral laid (Text.toNat t * 10 ^ zeros) exponent ∧
    exponent + zeros = point - t.length

theorem laidOut_small {t : Text} (h : IsSignificand t) (k : Nat) :
    LaidOut t (-(k : Int)) (text "0." ++ List.replicate k (.ofChar '0') ++ t) := by
  have decimals : ∀ c ∈ List.replicate k (CodePoint.ofChar '0') ++ t, c.isDigit = true :=
    fun c mem => (List.mem_append.mp mem).elim (isDigit_zeros _ c) (h.digits c)
  have numeral := numeral_point isInteger_zero decimals (by simp [h.nonempty])
  refine ⟨0, -(k + t.length : Nat), numeral_eq numeral ?_ ?_ ?_, by push_cast; omega⟩
  · simp [text]
  · simp only [Text.toNat_append, Text.toNat_zeros, toNat_zero]
    ring
  · rw [List.length_append, List.length_replicate]

theorem laidOut_whole {t : Text} (h : IsSignificand t) (k : Nat) :
    LaidOut t (t.length + k : Nat) (t ++ List.replicate k (.ofChar '0') ++ text ".0") := by
  have whole := h.isInteger _ (isDigit_zeros k)
  have numeral := numeral_point whole (isDigit_zeros 1) (by simp)
  refine ⟨k + 1, -1, numeral_eq numeral rfl ?_ rfl, by push_cast; omega⟩
  simp only [Text.toNat_append, Text.toNat_zeros, List.length_replicate]
  ring

theorem laidOut_inside {t : Text} (h : IsSignificand t) {k : Nat} (positive : 0 < k)
    (inside : k < t.length) : LaidOut t k (t.take k ++ text "." ++ t.drop k) := by
  have whole : IsInteger (t.take k) := by
    refine ⟨fun c mem => h.digits c (List.mem_of_mem_take mem), ?_, .inl ?_⟩
    · simp only [ne_eq, List.take_eq_nil_iff, not_or]
      exact ⟨by omega, h.nonempty⟩
    · rw [List.head?_take, if_neg (by omega)]
      exact h.noZero
  have decimals : ∀ c ∈ t.drop k, c.isDigit = true := fun c mem => h.digits c (List.mem_of_mem_drop mem)
  have numeral := numeral_point whole decimals (by simpa using inside)
  refine ⟨0, -((t.length - k : Nat) : Int), numeral_eq numeral ?_ ?_ ?_, by push_cast; omega⟩
  · simp [text]
  · rw [List.take_append_drop, Nat.pow_zero, Nat.mul_one]
  · rw [List.length_drop]

/-- The exponent is shown with at least two digits. -/
def shownPower (power : Int) : Text :=
  if (Text.ofNat power.natAbs).length = 1 then text "0" ++ Text.ofNat power.natAbs
  else Text.ofNat power.natAbs

theorem laidOut_scientific {t : Text} (h : IsSignificand t) (point : Int) :
    LaidOut t point (t.take 1 ++ (if t.length = 1 then [] else text "." ++ t.drop 1) ++
      text "e" ++ text (if point - 1 < 0 then "-" else "+") ++ shownPower (point - 1)) := by
  obtain ⟨first, others, rfl⟩ := List.exists_cons_of_ne_nil h.nonempty
  have whole : IsInteger [first] :=
    ⟨fun c mem => h.digits c (by simp_all), by simp, .inl h.noZero⟩
  have decimals : ∀ c ∈ others, c.isDigit = true := fun c mem => h.digits c (by simp [mem])
  have shown : (∀ c ∈ shownPower (point - 1), c.isDigit = true) ∧ shownPower (point - 1) ≠ [] ∧
      Text.toNat (shownPower (point - 1)) = (point - 1).natAbs := by
    have digits := Text.isDigit_ofNat (point - 1).natAbs
    unfold shownPower
    split
    · refine ⟨fun c mem => ?_, by simp [text], ?_⟩
      · exact (List.mem_append.mp mem).elim (isDigit_zeros 1 c) (digits c)
      · rw [Text.toNat_append, toNat_zero, Text.toNat_ofNat]
        omega
    · exact ⟨digits, Text.ofNat_ne_nil _, Text.toNat_ofNat _⟩
  obtain ⟨powers, some_, value⟩ := shown
  have numeral := numeral_exponent (decide (point - 1 < 0)) whole decimals powers some_
  refine ⟨0, point - 1 - others.length, numeral_eq numeral ?_ ?_ ?_, ?_⟩
  · cases others <;> simp [text]
  · simp
  · rw [value]
    by_cases negative : point - 1 < 0
    · simp only [negative, decide_true, if_true]
      omega
    · simp only [negative, decide_false, Bool.false_eq_true, if_false]
      omega
  · simp only [List.length_cons]
    push_cast
    omega

theorem laidOut_layout {t : Text} (h : IsSignificand t) (point : Int) :
    LaidOut t point (Double.layout t point) := by
  unfold Double.layout
  split
  · split
    · rename_i k _
      split
      · rename_i zero
        subst zero
        simpa using laidOut_small h 0
      · rename_i positive
        split
        · rename_i short
          obtain ⟨m, rfl⟩ := Nat.exists_eq_add_of_le short
          rw [Nat.add_sub_cancel_left]
          exact laidOut_whole h m
        · rename_i long
          exact laidOut_inside h (Nat.pos_of_ne_zero positive) (Nat.not_le.mp long)
    · rename_i k _
      exact laidOut_small h (k + 1)
  · exact laidOut_scientific h point

/-! ## Every float -/

/-- The digits of a positive number without the zeros at their end -/
theorem significand_ofNat {n : Nat} (positive : 0 < n) :
    ∃ zeros, IsSignificand ((Text.ofNat n).reverse.dropWhile (· == .ofChar '0')).reverse ∧
      Text.ofNat n = ((Text.ofNat n).reverse.dropWhile (· == .ofChar '0')).reverse ++
        List.replicate zeros (.ofChar '0') := by
  generalize digits_eq : Text.ofNat n = digits
  have split : digits = (digits.reverse.dropWhile (· == .ofChar '0')).reverse ++
      (digits.reverse.takeWhile (· == .ofChar '0')).reverse := by
    rw [← List.reverse_append, List.takeWhile_append_dropWhile, List.reverse_reverse]
  have zeros : (digits.reverse.takeWhile (· == .ofChar '0')).reverse =
      List.replicate (digits.reverse.takeWhile (· == .ofChar '0')).length (.ofChar '0') := by
    rw [List.eq_replicate_iff, List.length_reverse]
    refine ⟨rfl, fun c mem => ?_⟩
    have zeros := List.all_eq_true.mp (List.all_takeWhile (p := (· == CodePoint.ofChar '0'))
      (l := digits.reverse))
    exact beq_iff_eq.mp (zeros c (List.mem_reverse.mp mem))
  rw [zeros] at split
  generalize (digits.reverse.dropWhile (· == .ofChar '0')).reverse = t at *
  generalize (digits.reverse.takeWhile (· == .ofChar '0')).length = k at *
  refine ⟨k, ?_, split⟩
  have nonempty : t ≠ [] := by
    rintro rfl
    have value := Text.toNat_ofNat n
    rw [digits_eq, split, List.nil_append, Text.toNat_zeros] at value
    omega
  refine ⟨fun c mem => ?_, nonempty, fun zero => ?_⟩
  · exact Text.isDigit_ofNat n c (by rw [digits_eq, split]; simp [mem])
  · refine Text.head_ofNat positive (.ofChar '0') ?_ rfl
    rw [digits_eq, split, List.head?_append_of_ne_nil _ nonempty, zero]
    rfl

/-- What `repr` writes for a magnitude is read as this magnitude. -/
theorem numeral_repr {s : Nat} {e : Int} (representable : Representable (.finite false s e)) :
    ∃ t digits exponent, (∀ negative, (Double.finite negative s e).repr =
        text (if negative then "-" else "") ++ t) ∧ Numeral t digits exponent ∧
      ∀ negative, Double.ofDecimal negative digits exponent = .finite negative s e := by
  rcases Nat.eq_zero_or_pos s with rfl | positive
  · have bottom : e = -1074 := by
      have normal := representable.2.2.2
      omega
    subst bottom
    have numeral := numeral_point isInteger_zero (isDigit_zeros 1) (by simp)
    exact ⟨text "0.0", _, _, fun _ => rfl, numeral, fun _ => rfl⟩
  · have read := Double.ofDecimal_shortest positive representable
    have valuePos := Double.shortest_pos positive representable
    obtain ⟨zeros, significand, split⟩ := significand_ofNat valuePos
    generalize shown : (((Text.ofNat (Double.shortest s e).1).reverse.dropWhile
      (· == .ofChar '0')).reverse) = t at *
    obtain ⟨added, exponent, numeral, shifted⟩ := laidOut_layout significand
      ((Text.ofNat (Double.shortest s e).1).length + (Double.shortest s e).2)
    refine ⟨_, _, exponent, fun negative => ?_, numeral, fun negative => ?_⟩
    · rw [← shown, Double.repr, if_neg (Nat.pos_iff_ne_zero.mp positive)]
    · have value := congrArg Text.toNat split
      have length := congrArg List.length split
      rw [Text.toNat_ofNat, Text.toNat_append, Text.toNat_zeros, List.length_replicate,
        Nat.add_zero] at value
      rw [List.length_append, List.length_replicate] at length
      rw [length] at shifted
      have moved : exponent + added = zeros + (Double.shortest s e).2 := by
        push_cast at shifted
        omega
      have same : ((Text.toNat t * 10 ^ added : Nat) : ℚ) * 10 ^ exponent =
          (Double.shortest s e).1 * 10 ^ (Double.shortest s e).2 := by
        rw [value]
        push_cast
        rw [mul_assoc, mul_assoc, ← zpow_natCast, ← zpow_natCast, ← zpow_add₀ (by norm_num),
          ← zpow_add₀ (by norm_num), add_comm (added : Int), moved]
      rw [Double.ofDecimal_congr negative same]
      exact Double.ofFraction_sign negative read

theorem reads_numeral {t : Text} {digits : Nat} {exponent : Int} (h : Numeral t digits exponent)
    (negative : Bool) :
    Reads (.float (.ofDecimal negative digits exponent))
      (text (if negative then "-" else "") ++ t) := by
  obtain ⟨c, rest, rfl, digit⟩ := h.starts
  have numeral : isNumeral c = true := by simp [isNumeral, digit]
  cases negative with
  | true =>
      refine ⟨⟨.ofChar '-', c :: rest, rfl, starts_numeral (by decide)⟩, fun fuel others ends => ?_⟩
      have read := h.reads true others ends
      exact (value_numeral (by decide) fuel _).trans ((scalar_minus digit (rest ++ others)).trans read)
  | false =>
      refine ⟨⟨c, rest, rfl, starts_numeral numeral⟩, fun fuel others ends => ?_⟩
      have read := h.reads false others ends
      exact (value_numeral numeral fuel _).trans ((scalar_digit digit (rest ++ others)).trans read)

theorem starts_name {c : CodePoint} (h : c.isUpper = true) : Starts c := by
  refine ⟨Bool.eq_false_iff.mpr fun space => ?_, ?_, ?_⟩
  · simp only [isSpace, Bool.or_eq_true, beq_iff_eq] at space
    rcases space with ((rfl | rfl) | rfl) | rfl <;> exact absurd h (by decide)
  · rintro rfl
    exact absurd h (by decide)
  · rintro rfl
    exact absurd h (by decide)

/-- Every float that a literal is read as is written so that it is read back. -/
theorem reads_float {d : Double} (representable : Representable d) : Reads (.float d) d.repr := by
  cases d with
  | finite negative s e =>
      obtain ⟨t, digits, exponent, whole, numeral, read⟩ := numeral_repr representable
      rw [whole, ← read]
      exact reads_numeral numeral negative
  | infinite negative =>
      cases negative with
      | true => exact ⟨⟨.ofChar '-', _, rfl, starts_numeral (by decide)⟩, fun fuel rest _ => rfl⟩
      | false => exact ⟨⟨.ofChar 'I', _, rfl, starts_name (by decide)⟩, fun fuel rest _ => rfl⟩
  | nan => exact ⟨⟨.ofChar 'N', _, rfl, starts_name (by decide)⟩, fun fuel rest _ => rfl⟩

end Json
