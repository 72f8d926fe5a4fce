import Mathlib.Data.Int.Log
import Mathlib.Data.Rat.Floor
import Mathlib.Algebra.Order.Floor.Semifield
import Mathlib.Algebra.Order.Field.Power
import Mathlib.Tactic.Linarith
import Mathlib.Tactic.Ring
import Mathlib.Tactic.FieldSimp
import Mathlib.Tactic.Positivity
import Mathlib.Tactic.NormNum
import PackageRegistry.Lib.Double

/-! # Seventeen digits determine a double

The arithmetic of `Double` read over the rationals: rounding depends only on the value of
a fraction, and a decimal that is close enough to a double is rounded to it. The nearest
decimal of seventeen digits is, so the search for the shortest one always succeeds.
-/

namespace Double

/-! ## Fractions -/

theorem scale_pos {base n d : Nat} (basePos : 0 < base) (dPos : 0 < d) (e : Int) :
    0 < (scale base n d e).2 := by
  cases e with
  | ofNat k => exact dPos
  | negSucc k => exact Nat.mul_pos dPos (Nat.pow_pos basePos)

theorem scale_value {base d : Nat} (basePos : 0 < base) (dPos : 0 < d) (n : Nat) (e : Int) :
    ((scale base n d e).1 : ℚ) / (scale base n d e).2 = n / d * (base : ℚ) ^ e := by
  have base_ne : (base : ℚ) ≠ 0 := by positivity
  have d_ne : (d : ℚ) ≠ 0 := by positivity
  cases e with
  | ofNat k =>
      simp only [scale, Nat.cast_mul, Nat.cast_pow, Int.ofNat_eq_natCast, zpow_natCast]
      ring
  | negSucc k =>
      simp only [scale, Nat.cast_mul, Nat.cast_pow, zpow_negSucc]
      field_simp

theorem floorLog_eq {n d : Nat} (base : Nat) (nPos : 0 < n) (dPos : 0 < d) :
    floorLog base n d = Int.log base ((n : ℚ) / d) := by
  have dPos' : (0 : ℚ) < d := by exact_mod_cast dPos
  unfold floorLog
  by_cases large : d ≤ n
  · have one_le : (1 : ℚ) ≤ n / d := by
      rw [le_div_iff₀ dPos', one_mul]
      exact_mod_cast large
    rw [if_pos large, Int.log_of_one_le_right _ one_le, Nat.floor_div_eq_div]
  · have le_one : (n : ℚ) / d ≤ 1 := by
      rw [div_le_iff₀ dPos', one_mul]
      exact_mod_cast (Nat.not_le.mp large).le
    have ceil : ⌈((n : ℚ) / d)⁻¹⌉₊ = (d + n - 1) / n := by
      rw [inv_div]
      apply le_antisymm
      · rw [Nat.ceil_le, div_le_iff₀ (by exact_mod_cast nPos)]
        have cover := Nat.lt_div_mul_add (a := d + n - 1) nPos
        have enough : d ≤ (d + n - 1) / n * n := by omega
        exact_mod_cast enough
      · apply Nat.le_of_lt_succ
        rw [Nat.div_lt_iff_lt_mul nPos]
        have above : (d : ℚ) ≤ ⌈(d : ℚ) / n⌉₊ * n := by
          rw [← div_le_iff₀ (by exact_mod_cast nPos)]
          exact Nat.le_ceil _
        have above : d ≤ ⌈(d : ℚ) / n⌉₊ * n := by exact_mod_cast above
        rw [Nat.succ_mul]
        omega
    rw [if_neg large, Int.log_of_right_le_one _ le_one, ceil]

/-! ## Rounding to a whole number -/

theorem roundHalfEven_of_near {n d m : Nat} (below : 2 * n < (2 * m + 1) * d)
    (above : 2 * m * d < 2 * n + d) : roundHalfEven n d = m := by
  have dPos : 0 < d := by
    by_contra zero
    obtain rfl : d = 0 := by omega
    simp at below
  have rest := Nat.mod_lt n dPos
  have whole := Nat.div_add_mod n d
  unfold roundHalfEven
  dsimp only
  generalize n / d = q at *
  generalize n % d = r at *
  subst whole
  split
  · rename_i down
    have small : 2 * r ≤ d := by omega
    have lower : q < m + 1 := by
      by_contra much
      have : (m + 1) * d ≤ q * d := Nat.mul_le_mul_right d (by omega)
      nlinarith
    have upper : m < q + 1 := by
      by_contra much
      have : (q + 1) * d ≤ m * d := Nat.mul_le_mul_right d (by omega)
      nlinarith
    omega
  · rename_i up
    have large : d ≤ 2 * r := by omega
    have lower : q < m := by
      by_contra much
      have : m * d ≤ q * d := Nat.mul_le_mul_right d (by omega)
      nlinarith
    have upper : m < q + 2 := by
      by_contra much
      have : (q + 2) * d ≤ m * d := Nat.mul_le_mul_right d (by omega)
      nlinarith
    omega

/-- The rounded quotient is at most a half away. -/
theorem roundHalfEven_near {n d : Nat} (dPos : 0 < d) :
    2 * n ≤ (2 * roundHalfEven n d + 1) * d ∧ 2 * roundHalfEven n d * d ≤ 2 * n + d := by
  have rest := Nat.mod_lt n dPos
  have whole := Nat.div_add_mod n d
  unfold roundHalfEven
  dsimp only
  generalize n / d = q at *
  generalize n % d = r at *
  subst whole
  split
  · rename_i down
    have small : 2 * r ≤ d := by omega
    constructor <;> nlinarith
  · rename_i up
    have large : d ≤ 2 * r := by omega
    constructor <;> nlinarith

theorem roundHalfEven_scale {k d : Nat} (kPos : 0 < k) (n : Nat) :
    roundHalfEven (k * n) (k * d) = roundHalfEven n d := by
  unfold roundHalfEven
  have twice : 2 * (k * (n % d)) = k * (2 * (n % d)) := by ring
  simp only [Nat.mul_div_mul_left _ _ kPos, Nat.mul_mod_mul_left, twice,
    Nat.mul_lt_mul_left kPos, Nat.mul_right_inj (Nat.pos_iff_ne_zero.mp kPos)]

theorem roundHalfEven_congr {n d n' d' : Nat} (dPos : 0 < d) (dPos' : 0 < d')
    (same : (n : ℚ) / d = n' / d') : roundHalfEven n d = roundHalfEven n' d' := by
  have cross : d' * n = d * n' := by
    rw [div_eq_div_iff (by positivity) (by positivity)] at same
    have same : n * d' = n' * d := by exact_mod_cast same
    rw [Nat.mul_comm, same, Nat.mul_comm]
  rw [← roundHalfEven_scale dPos' n, cross, Nat.mul_comm d' d, roundHalfEven_scale dPos]

/-- The same over the rationals -/
theorem abs_roundHalfEven_sub {n d : Nat} (dPos : 0 < d) :
    |(roundHalfEven n d : ℚ) - n / d| ≤ 1 / 2 := by
  have dPos' : (0 : ℚ) < d := by exact_mod_cast dPos
  obtain ⟨below, above⟩ := roundHalfEven_near (n := n) dPos
  have below : (2 * n : ℚ) ≤ (2 * roundHalfEven n d + 1) * d := by exact_mod_cast below
  have above : (2 * roundHalfEven n d * d : ℚ) ≤ 2 * n + d := by exact_mod_cast above
  have low : (n : ℚ) / d ≤ roundHalfEven n d + 1 / 2 := by
    rw [div_le_iff₀ dPos']
    linarith
  have high : (roundHalfEven n d : ℚ) - 1 / 2 ≤ n / d := by
    rw [le_div_iff₀ dPos']
    linarith
  rw [abs_le]
  constructor <;> linarith

theorem roundHalfEven_of_abs {n d m : Nat} (dPos : 0 < d) (near : |(n : ℚ) / d - m| < 1 / 2) :
    roundHalfEven n d = m := by
  have dPos' : (0 : ℚ) < d := by exact_mod_cast dPos
  obtain ⟨low, high⟩ := abs_lt.mp near
  have low : ((m : ℚ) - 1 / 2) * d < n := by
    rw [← lt_div_iff₀ dPos']
    linarith
  have high : (n : ℚ) < (m + 1 / 2) * d := by
    rw [← div_lt_iff₀ dPos']
    linarith
  apply roundHalfEven_of_near
  · have : (2 * n : ℚ) < (2 * m + 1) * d := by linarith
    exact_mod_cast this
  · have : (2 * m * d : ℚ) < 2 * n + d := by linarith
    exact_mod_cast this

/-! ## Rounding to a double -/

/-- What a literal can be read as: 53 bits, or fewer with the least exponent. -/
def Representable : Double → Prop
  | .finite _ significand exponent =>
      significand < 2 ^ 53 ∧ -1074 ≤ exponent ∧ exponent ≤ 971 ∧
        (2 ^ 52 ≤ significand ∨ exponent = -1074)
  | _ => True

/-- The double for a significand that may have been carried over -/
def carry (negative : Bool) (significand : Nat) (exponent : Int) : Double :=
  if significand = 2 ^ 53 then
    if 971 < exponent + 1 then .infinite negative else .finite negative (2 ^ 52) (exponent + 1)
  else if 971 < exponent then .infinite negative else .finite negative significand exponent

theorem ofFraction_eq {n d : Nat} (negative : Bool) (nPos : 0 < n) (dPos : 0 < d) {e : Int}
    (known : max (Int.log 2 ((n : ℚ) / d) - 52) (-1074) = e) :
    ofFraction negative n d =
      carry negative (roundHalfEven (scale 2 n d (-e)).1 (scale 2 n d (-e)).2) e := by
  simp only [ofFraction, if_neg (Nat.pos_iff_ne_zero.mp nPos), floorLog_eq 2 nPos dPos, known]
  unfold carry
  split <;> rfl

/-- Rounding sees only the value of the fraction. -/
theorem ofFraction_congr {n d n' d' : Nat} (negative : Bool) (dPos : 0 < d) (dPos' : 0 < d')
    (same : (n : ℚ) / d = n' / d') : ofFraction negative n d = ofFraction negative n' d' := by
  rcases Nat.eq_zero_or_pos n with rfl | nPos
  · have zero : n' = 0 := by
      have : (n' : ℚ) / d' = 0 := by simpa using same.symm
      rcases div_eq_zero_iff.mp this with zero | zero
      · exact_mod_cast zero
      · exact absurd zero (by positivity)
    rw [zero]
    rfl
  · have nPos' : 0 < n' := by
      have : (0 : ℚ) < n' / d' := same ▸ by positivity
      by_contra zero
      obtain rfl : n' = 0 := by omega
      simp at this
    rw [ofFraction_eq negative nPos dPos rfl, ofFraction_eq negative nPos' dPos' rfl, same]
    congr 1
    refine roundHalfEven_congr (scale_pos (by decide) dPos _) (scale_pos (by decide) dPos' _) ?_
    rw [scale_value (by decide) dPos, scale_value (by decide) dPos', same]

/-- A fraction so close to a double is rounded to it. -/
theorem ofFraction_near {n d s : Nat} {e : Int} (negative : Bool) (dPos : 0 < d) (sPos : 0 < s)
    (representable : Representable (.finite negative s e)) {z : ℚ}
    (value : (n : ℚ) / d = z * 2 ^ e) (near : |z - s| * (2 * 10 ^ 16) ≤ s) :
    ofFraction negative n d = .finite negative s e := by
  obtain ⟨small, least, greatest, normal⟩ := representable
  have unit : (0 : ℚ) < 2 ^ e := zpow_pos (by norm_num) e
  have sPos' : (1 : ℚ) ≤ s := by exact_mod_cast sPos
  have small' : (s : ℚ) ≤ 9007199254740991 := by
    have : s ≤ 9007199254740991 := Nat.le_of_lt_succ small
    exact_mod_cast this
  have close : |z - s| < 1 / 2 := by linarith
  obtain ⟨low, high⟩ := abs_lt.mp close
  have zPos : 0 < z := by linarith
  have nPos : 0 < n := by
    have : (0 : ℚ) < n / d := value ▸ mul_pos zPos unit
    by_contra zero
    obtain rfl : n = 0 := by omega
    simp at this
  have log_lt : Int.log 2 ((n : ℚ) / d) < e + 53 := by
    rw [← Int.lt_zpow_iff_log_lt (by decide) (value ▸ mul_pos zPos unit), value,
      Nat.cast_ofNat, zpow_add₀ (by norm_num), mul_comm]
    exact mul_lt_mul_of_pos_left (by norm_num only; linarith) unit
  -- How the value lies in the units of the significand
  have scaled : ∀ k : Int, ((scale 2 n d (-(e - k))).1 : ℚ) / (scale 2 n d (-(e - k))).2 =
      z * 2 ^ k := by
    intro k
    rw [scale_value (by decide) dPos, value, Nat.cast_ofNat, mul_assoc,
      ← zpow_add₀ (by norm_num)]
    congr 2
    ring
  by_cases binade : (2 : ℚ) ^ 52 ≤ z ∨ e = -1074
  · have exponent : max (Int.log 2 ((n : ℚ) / d) - 52) (-1074) = e := by
      rcases binade with full | bottom
      · have le_log : e + 52 ≤ Int.log 2 ((n : ℚ) / d) := by
          rw [← Int.zpow_le_iff_le_log (by decide) (value ▸ mul_pos zPos unit), value,
            Nat.cast_ofNat, zpow_add₀ (by norm_num), mul_comm]
          exact mul_le_mul_of_nonneg_right (by exact_mod_cast full) unit.le
        omega
      · omega
    have rounded : roundHalfEven (scale 2 n d (-e)).1 (scale 2 n d (-e)).2 = s := by
      refine roundHalfEven_of_abs (scale_pos (by decide) dPos _) ?_
      have value := scaled 0
      rw [sub_zero, zpow_zero, mul_one] at value
      rw [value]
      exact close
    rw [ofFraction_eq negative nPos dPos exponent, rounded, carry, if_neg small.ne,
      if_neg (not_lt.mpr greatest)]
  · -- Just below a power of two the unit is half as large, and the significand is carried over.
    obtain ⟨below, above⟩ := not_or.mp binade
    have full : 2 ^ 52 ≤ s := normal.resolve_right above
    have exact : s = 2 ^ 52 := by
      have : (s : ℚ) < (2 ^ 52 : Nat) + 1 := by
        push_cast
        linarith [not_le.mp below]
      have : s < 2 ^ 52 + 1 := by exact_mod_cast this
      omega
    have bound : (2 : ℚ) ^ 51 ≤ z := by
      rw [exact] at low
      norm_num at low ⊢
      linarith
    have exponent : max (Int.log 2 ((n : ℚ) / d) - 52) (-1074) = e - 1 := by
      have le_log : e + 51 ≤ Int.log 2 ((n : ℚ) / d) := by
        rw [← Int.zpow_le_iff_le_log (by decide) (value ▸ mul_pos zPos unit), value,
          Nat.cast_ofNat, zpow_add₀ (by norm_num), mul_comm]
        exact mul_le_mul_of_nonneg_right (by exact_mod_cast bound) unit.le
      have log_lt : Int.log 2 ((n : ℚ) / d) < e + 52 := by
        rw [← Int.lt_zpow_iff_log_lt (by decide) (value ▸ mul_pos zPos unit), value,
          Nat.cast_ofNat, zpow_add₀ (by norm_num), mul_comm]
        exact mul_lt_mul_of_pos_left (by exact_mod_cast not_le.mp below) unit
      omega
    have rounded : roundHalfEven (scale 2 n d (-(e - 1))).1 (scale 2 n d (-(e - 1))).2 =
        2 ^ 53 := by
      refine roundHalfEven_of_abs (scale_pos (by decide) dPos _) ?_
      have twice : z * 2 ^ (1 : Int) - ((2 ^ 53 : Nat) : ℚ) = 2 * (z - s) := by
        rw [exact]
        push_cast
        ring
      have near : |z - s| * (2 * 10 ^ 16) ≤ 4503599627370496 := by
        rw [exact] at near ⊢
        exact_mod_cast near
      rw [scaled 1, twice, abs_mul, abs_two]
      linarith
    rw [ofFraction_eq negative nPos dPos exponent, rounded, carry, if_pos rfl, sub_add_cancel,
      if_neg (not_lt.mpr greatest), exact]

/-- Whatever a fraction is rounded to is representable. -/
theorem representable_ofFraction {n d : Nat} (negative : Bool) (dPos : 0 < d) :
    Representable (ofFraction negative n d) := by
  rcases Nat.eq_zero_or_pos n with rfl | nPos
  · exact ⟨by decide, by decide, by decide, .inr rfl⟩
  · have valuePos : (0 : ℚ) < n / d := by positivity
    generalize known : max (Int.log 2 ((n : ℚ) / d) - 52) (-1074) = e
    rw [ofFraction_eq negative nPos dPos known]
    have unit : (0 : ℚ) < 2 ^ (-e) := zpow_pos (by norm_num) _
    have scaledPos : 0 < (scale 2 n d (-e)).2 := scale_pos (by decide) dPos (-e)
    have near := abs_le.mp (abs_roundHalfEven_sub (n := (scale 2 n d (-e)).1) scaledPos)
    rw [scale_value (by decide) dPos, Nat.cast_ofNat] at near
    have upper : roundHalfEven (scale 2 n d (-e)).1 (scale 2 n d (-e)).2 ≤ 2 ^ 53 := by
      have log_lt : (n : ℚ) / d < 2 ^ (e + 53) := by
        have := (Int.lt_zpow_iff_log_lt (b := 2) (by decide) valuePos (x := e + 53)).mpr (by omega)
        exact_mod_cast this
      have scaled : (n : ℚ) / d * 2 ^ (-e) < 2 ^ 53 := by
        calc (n : ℚ) / d * 2 ^ (-e) < 2 ^ (e + 53) * 2 ^ (-e) := mul_lt_mul_of_pos_right log_lt unit
          _ = 2 ^ 53 := by
            rw [← zpow_add₀ (by norm_num), add_neg_cancel_comm]
            norm_num
      have : (roundHalfEven (scale 2 n d (-e)).1 (scale 2 n d (-e)).2 : ℚ) < (2 ^ 53 : Nat) + 1 := by
        push_cast
        linarith
      have : roundHalfEven (scale 2 n d (-e)).1 (scale 2 n d (-e)).2 < 2 ^ 53 + 1 := by
        exact_mod_cast this
      omega
    have lower : 2 ^ 52 ≤ roundHalfEven (scale 2 n d (-e)).1 (scale 2 n d (-e)).2 ∨ e = -1074 := by
      by_cases bottom : e = -1074
      · exact .inr bottom
      · have le_log : (2 : ℚ) ^ (e + 52) ≤ n / d := by
          have := (Int.zpow_le_iff_le_log (b := 2) (by decide) valuePos (x := e + 52)).mpr (by omega)
          exact_mod_cast this
        have scaled : (2 : ℚ) ^ 52 ≤ n / d * 2 ^ (-e) := by
          calc (2 : ℚ) ^ 52 = 2 ^ (e + 52) * 2 ^ (-e) := by
                rw [← zpow_add₀ (by norm_num), add_neg_cancel_comm]
                norm_num
            _ ≤ n / d * 2 ^ (-e) := mul_le_mul_of_nonneg_right le_log unit.le
        left
        have : ((2 ^ 52 : Nat) : ℚ) < roundHalfEven (scale 2 n d (-e)).1 (scale 2 n d (-e)).2 + 1 := by
          push_cast
          linarith
        have : 2 ^ 52 < roundHalfEven (scale 2 n d (-e)).1 (scale 2 n d (-e)).2 + 1 := by
          exact_mod_cast this
        omega
    generalize roundHalfEven (scale 2 n d (-e)).1 (scale 2 n d (-e)).2 = m at *
    have least : -1074 ≤ e := by omega
    unfold carry
    split
    · split
      · trivial
      · exact ⟨by decide, by omega, by omega, .inl le_rfl⟩
    · split
      · trivial
      · exact ⟨by omega, least, by omega, lower⟩

theorem representable_ofDecimal (negative : Bool) (digits : Nat) (exponent : Int) :
    Representable (ofDecimal negative digits exponent) :=
  representable_ofFraction negative (scale_pos (by decide) (by decide) exponent)

/-! ## The shortest decimal -/

/-- A literal is read by its value. -/
theorem ofDecimal_congr (negative : Bool) {digits digits' : Nat} {exponent exponent' : Int}
    (same : (digits : ℚ) * 10 ^ exponent = digits' * 10 ^ exponent') :
    ofDecimal negative digits exponent = ofDecimal negative digits' exponent' := by
  refine ofFraction_congr negative (scale_pos (by decide) (by decide) _)
    (scale_pos (by decide) (by decide) _) ?_
  rw [scale_value (by decide) (by decide), scale_value (by decide) (by decide)]
  simpa using same

/-- The sign of a literal is the sign of the double. -/
theorem ofFraction_sign {n d s : Nat} {e : Int} (negative : Bool)
    (read : ofFraction false n d = .finite false s e) :
    ofFraction negative n d = .finite negative s e := by
  unfold ofFraction at read ⊢
  grind

/-- The nearest decimal of seventeen digits is read as the double. -/
theorem seventeen_digits {s : Nat} {e : Int} (sPos : 0 < s)
    (representable : Representable (.finite false s e)) :
    ∃ c ∈ candidates (scale 2 s 1 e).1 (scale 2 s 1 e).2
        (floorLog 10 (scale 2 s 1 e).1 (scale 2 s 1 e).2) 17,
      ofDecimal false c.1 c.2 = .finite false s e := by
  have exact := @scale_value 2 1 (by decide) (by decide) s e
  have dPos : 0 < (scale 2 s 1 e).2 := scale_pos (by decide) (by decide) e
  rw [Nat.cast_one, div_one, Nat.cast_ofNat] at exact
  generalize (scale 2 s 1 e).1 = n at *
  generalize (scale 2 s 1 e).2 = d at *
  have sPos' : (0 : ℚ) < s := by exact_mod_cast sPos
  have unit : (0 : ℚ) < 2 ^ e := zpow_pos (by norm_num) e
  have nPos : 0 < n := by
    have : (0 : ℚ) < n / d := exact ▸ mul_pos sPos' unit
    by_contra zero
    obtain rfl : n = 0 := by omega
    simp at this
  have leading : (10 : ℚ) ^ floorLog 10 n d ≤ s * 2 ^ e := by
    rw [floorLog_eq 10 nPos dPos, ← exact]
    exact_mod_cast Int.zpow_log_le_self (by decide) (exact ▸ mul_pos sPos' unit)
  generalize floorLog 10 n d = lead at *
  obtain ⟨weight, rfl⟩ : ∃ weight : Int, lead = weight + 16 := ⟨lead - 16, by omega⟩
  refine ⟨(roundHalfEven (scale 10 n d (-weight)).1 (scale 10 n d (-weight)).2, weight), ?_, ?_⟩
  · have weigh : weight + 16 - ((17 : Nat) : Int) + 1 = weight := by omega
    simp only [candidates, weigh, List.mem_cons, true_or]
  have power : (0 : ℚ) < 10 ^ weight := zpow_pos (by norm_num) _
  have leading : (10 : ℚ) ^ weight * 10 ^ 16 ≤ s * 2 ^ e := by
    rw [zpow_add₀ (by norm_num)] at leading
    exact_mod_cast leading
  have scaledPos : 0 < (scale 10 n d (-weight)).2 := scale_pos (by decide) dPos (-weight)
  have near := abs_roundHalfEven_sub (n := (scale 10 n d (-weight)).1) scaledPos
  rw [scale_value (by decide) dPos, exact, Nat.cast_ofNat] at near
  generalize roundHalfEven (scale 10 n d (-weight)).1 (scale 10 n d (-weight)).2 = m at *
  refine ofFraction_near false (scale_pos (by decide) (by decide) _) sPos representable
    (z := m * 10 ^ weight / 2 ^ e) ?_ ?_
  · rw [scale_value (by decide) (by decide), div_mul_cancel₀ _ unit.ne']
    simp
  · have split : (m : ℚ) * 10 ^ weight / 2 ^ e - s =
        (m - s * 2 ^ e * 10 ^ (-weight)) * (10 ^ weight / 2 ^ e) := by
      rw [zpow_neg]
      field_simp
    rw [split, abs_mul, abs_of_pos (div_pos power unit)]
    calc |(m : ℚ) - s * 2 ^ e * 10 ^ (-weight)| * (10 ^ weight / 2 ^ e) * (2 * 10 ^ 16)
        ≤ 1 / 2 * (10 ^ weight / 2 ^ e) * (2 * 10 ^ 16) := by gcongr
      _ = 10 ^ weight * 10 ^ 16 / 2 ^ e := by ring
      _ ≤ s := by rwa [div_le_iff₀ unit]

theorem ofDecimal_shortest {s : Nat} {e : Int} (sPos : 0 < s)
    (representable : Representable (.finite false s e)) :
    ofDecimal false (shortest s e).1 (shortest s e).2 = .finite false s e := by
  generalize found : (List.range 17).findSome? (fun k =>
    (candidates (scale 2 s 1 e).1 (scale 2 s 1 e).2
      (floorLog 10 (scale 2 s 1 e).1 (scale 2 s 1 e).2) (k + 1)).find? fun c =>
        ofDecimal false c.1 c.2 = .finite false s e) = result
  have whole : shortest s e = result.getD (s, 0) := by rw [← found]; rfl
  cases result with
  | none =>
      obtain ⟨c, mem, read⟩ := seventeen_digits sPos representable
      have refused := List.find?_eq_none.mp (List.findSome?_eq_none_iff.mp found 16 (by simp)) c mem
      exact absurd (decide_eq_true read) refused
  | some c =>
      obtain ⟨k, -, here⟩ := List.exists_of_findSome?_eq_some found
      have read := List.find?_some here
      rw [whole]
      exact of_decide_eq_true read

theorem shortest_pos {s : Nat} {e : Int} (sPos : 0 < s)
    (representable : Representable (.finite false s e)) : 0 < (shortest s e).1 := by
  have read := ofDecimal_shortest sPos representable
  by_contra zero
  have zero : (shortest s e).1 = 0 := by omega
  have nothing : (scale 10 0 1 (shortest s e).2).1 = 0 := by
    unfold scale
    split <;> simp
  rw [ofDecimal, zero] at read
  simp only [ofFraction, nothing, if_true, Double.finite.injEq] at read
  omega

end Double
