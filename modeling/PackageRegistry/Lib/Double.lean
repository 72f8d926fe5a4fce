import Mathlib.Data.Nat.Log
import Mathlib.Algebra.Group.Nat.Defs
import PackageRegistry.Lib.Text

/-! # Binary floating point numbers as decimal literals

A double is a sign, a significand and an exponent. Reading a literal rounds it to
the nearest double, ties to even; writing one takes the shortest decimal that is
read back as the same double.
-/

inductive Double where
  /-- `± significand * 2 ^ exponent` -/
  | finite (negative : Bool) (significand : Nat) (exponent : Int)
  | infinite (negative : Bool)
  | nan
  deriving DecidableEq

namespace Double

def one : Double := .finite false (2 ^ 52) (-52)

/-- `n * base ^ k` as a fraction -/
def scale (base n d : Nat) : Int → Nat × Nat
  | .ofNat k => (n * base ^ k, d)
  | .negSucc k => (n, d * base ^ (k + 1))

/-- The quotient rounded to the nearest number, ties to even -/
def roundHalfEven (n d : Nat) : Nat :=
  let q := n / d
  let twice := 2 * (n % d)
  if twice < d ∨ (twice = d ∧ q % 2 = 0) then q else q + 1

/-- The greatest `k` with `base ^ k ≤ n / d` -/
def floorLog (base n d : Nat) : Int :=
  if d ≤ n then Nat.log base (n / d) else -(Nat.clog base ((d + n - 1) / n) : Int)

/-- The double nearest to `n / d` -/
def ofFraction (negative : Bool) (n d : Nat) : Double :=
  if n = 0 then .finite negative 0 (-1074)
  else
    let exponent := max (floorLog 2 n d - 52) (-1074)
    let scaled := scale 2 n d (-exponent)
    let significand := roundHalfEven scaled.1 scaled.2
    let carried := significand = 2 ^ 53
    let exponent := if carried then exponent + 1 else exponent
    if 971 < exponent then .infinite negative
    else .finite negative (if carried then 2 ^ 52 else significand) exponent

/-- The literal `digits * 10 ^ exponent` -/
def ofDecimal (negative : Bool) (digits : Nat) (exponent : Int) : Double :=
  let scaled := scale 10 digits 1 exponent
  ofFraction negative scaled.1 scaled.2

/-- The decimals of `count` digits next to a magnitude whose leading digit has weight
    `10 ^ lead`, nearest first -/
def candidates (n d : Nat) (lead : Int) (count : Nat) : List (Nat × Int) :=
  let weight := lead - count + 1
  let scaled := scale 10 n d (-weight)
  let below := scaled.1 / scaled.2
  let nearest := roundHalfEven scaled.1 scaled.2
  [(nearest, weight), (below + (below + 1) - nearest, weight)]

/-- The shortest decimal that is read back as the magnitude -/
def shortest (significand : Nat) (exponent : Int) : Nat × Int :=
  let exact := scale 2 significand 1 exponent
  let lead := floorLog 10 exact.1 exact.2
  let found := (List.range 17).findSome? fun k =>
    (candidates exact.1 exact.2 lead (k + 1)).find? fun c =>
      ofDecimal false c.1 c.2 = .finite false significand exponent
  found.getD (significand, 0)

/-- `0.digits * 10 ^ point` the way `repr` prints it -/
def layout (digits : Text) (point : Int) : Text :=
  if -4 < point ∧ point ≤ 16 then
    match point with
    | .ofNat k =>
        if k = 0 then text "0." ++ digits
        else if digits.length ≤ k then
          digits ++ List.replicate (k - digits.length) (.ofChar '0') ++ text ".0"
        else digits.take k ++ text "." ++ digits.drop k
    | .negSucc k => text "0." ++ List.replicate (k + 1) (.ofChar '0') ++ digits
  else
    let mantissa := digits.take 1 ++
      (if digits.length = 1 then [] else text "." ++ digits.drop 1)
    let power := point - 1
    let shown := Text.ofNat power.natAbs
    mantissa ++ text "e" ++ text (if power < 0 then "-" else "+") ++
      (if shown.length = 1 then text "0" ++ shown else shown)

/-- `float.__repr__`, with the names that JSON has for what is not finite -/
def repr : Double → Text
  | .nan => text "NaN"
  | .infinite negative => text (if negative then "-Infinity" else "Infinity")
  | .finite negative significand exponent =>
      text (if negative then "-" else "") ++
        if significand = 0 then text "0.0"
        else
          let (value, weight) := shortest significand exponent
          let digits := Text.ofNat value
          let significant := (digits.reverse.dropWhile (· == .ofChar '0')).reverse
          layout significant (digits.length + weight)

example : repr one = text "1.0" := by decide

example : ofDecimal false 10 (-1) = one := by decide

end Double
