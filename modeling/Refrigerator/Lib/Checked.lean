/-
Signed 32-bit arithmetic as C++ defines it: an operation has a value only when its exact result is
one of the type, and otherwise the behaviour is undefined.
-/
import Mathlib.Algebra.Order.Ring.Int

namespace Refrigerator.Lib

/-- `a - b`, unless it overflows. -/
def checkedSub (a b : Int32) : Option Int32 :=
  if a.toBitVec.ssubOverflow b.toBitVec then none else some (a - b)

/-- `a / b`, unless `b` is zero or the quotient overflows. -/
def checkedDiv (a b : Int32) : Option Int32 :=
  if b = 0 ∨ (a = Int32.minValue ∧ b = -1) then none else some (a / b)

theorem checkedSub_eq {a b : Int32} (hlo : -2 ^ 31 ≤ a.toInt - b.toInt) (hhi : a.toInt - b.toInt < 2 ^ 31) :
    ∃ c, checkedSub a b = some c ∧ c.toInt = a.toInt - b.toInt := by
  have hno : a.toBitVec.ssubOverflow b.toBitVec = false := by
    simp only [BitVec.ssubOverflow, Int32.toInt_toBitVec, Bool.or_eq_false_iff, decide_eq_false_iff_not]
    omega
  refine ⟨a - b, by rw [checkedSub, hno]; rfl, ?_⟩
  rw [Int32.toInt_sub, Int.bmod_eq_of_le (by omega) (by omega)]

/-- The difference of two values that are not negative does not overflow. -/
theorem checkedSub_of_nonneg {a b : Int32} (ha : 0 ≤ a.toInt) (hb : 0 ≤ b.toInt) :
    ∃ c, checkedSub a b = some c ∧ c.toInt = a.toInt - b.toInt := by
  have hlt := a.toInt_lt
  have hlt' := b.toInt_lt
  exact checkedSub_eq (by omega) (by omega)

/-- Dividing by a positive divisor does not overflow. -/
theorem checkedDiv_eq {a b : Int32} (hb : 0 < b.toInt) :
    ∃ c, checkedDiv a b = some c ∧ c.toInt = a.toInt.tdiv b.toInt := by
  have hzero : b ≠ 0 := by rintro rfl; simp at hb
  have hminus : b ≠ -1 := by rintro rfl; exact absurd hb (by decide)
  refine ⟨a / b, by simp [checkedDiv, hzero, hminus], Int32.toInt_div_of_ne_right a b hminus⟩

theorem toInt_max (a b : Int32) : (max a b).toInt = max a.toInt b.toInt := by
  show (if a ≤ b then b else a).toInt = _
  by_cases h : a ≤ b
  · have hle := Int32.le_iff_toInt_le.1 h
    rw [if_pos h]; omega
  · have hlt : b.toInt < a.toInt := Int.not_le.1 fun hle => h (Int32.le_iff_toInt_le.2 hle)
    rw [if_neg h]; omega

example : checkedSub (-2147483648) 1 = none := by decide

end Refrigerator.Lib
