/-
Decimal notation of binary32 values as a C++ stream writes them by default: six significant digits,
rounded to nearest with ties to even, without trailing zeros, and with an exponent when the value is
below `10^-4` or has more digits before the point.
-/
import Mathlib.Data.List.DropRight
import Mathlib.Data.Nat.Log
import Refrigerator.Lib.Binary32

namespace Refrigerator.Lib

namespace Decimal

/-! ## Digits -/

/-- The integer nearest to `n / d`, ties to even. -/
def roundDiv (n d : Nat) : Nat :=
  let q := n / d
  let r := n % d
  if d < 2 * r ∨ (2 * r = d ∧ q % 2 = 1) then q + 1 else q

/-- The exponent of the first digit of `n / d`. -/
def exponent (n d : Nat) : Int :=
  if d ≤ n then Nat.log 10 (n / d) else -Nat.clog 10 ((d + n - 1) / n)

/-- The first digits of `n / d`, rounded, and the exponent of the first one. -/
def significant (precision n d : Nat) : Nat × Int :=
  let e := exponent n d
  let shift : Int := precision - 1 - e
  let digits := roundDiv (n * 10 ^ shift.toNat) (d * 10 ^ (-shift).toNat)
  -- rounding up may carry into one more digit
  if digits = 10 ^ precision then (10 ^ (precision - 1), e + 1) else (digits, e)

/-! ## Notation -/

/-- The last `places` digits of a number behind a point, less the trailing zeros. -/
def fraction (digits places : Nat) : String :=
  let text := Nat.toDigits 10 (digits % 10 ^ places)
  let padded := List.replicate (places - text.length) '0' ++ text
  let kept := if places = 0 then [] else padded.rdropWhile (· = '0')
  if kept.isEmpty then "" else "." ++ String.ofList kept

def point (digits places : Nat) : String := toString (digits / 10 ^ places) ++ fraction digits places

def scientific (digits places : Nat) (e : Int) : String :=
  point digits places ++ (if e < 0 then "e-" else "e+") ++ (if e.natAbs < 10 then "0" else "") ++ toString e.natAbs

/-- The value `n / d`. -/
def general (precision n d : Nat) : String :=
  if n = 0 then "0"
  else
    let (digits, e) := significant precision n d
    if -4 ≤ e ∧ e < precision then point digits ((precision : Int) - 1 - e).toNat
    else scientific digits (precision - 1) e

end Decimal

def Binary32.print (x : Binary32) : String :=
  (if x.negative then "-" else "") ++
    if x.isNaN then "nan"
    else if !x.isFinite then "inf"
    else Decimal.general 6 (Binary32.units x.magnitude) (2 ^ 149)

example : (Binary32.ofNat 8192).print = "8192" ∧ (Binary32.ofNat 1234567).neg.print = "-1.23457e+06" ∧
    (Binary32.mk 0x3dcccccd).print = "0.1" := by decide +kernel

end Refrigerator.Lib
