/-
IEEE 754 binary32 values by their bits: comparison, addition, multiplication and square root rounded
to nearest with ties to even, and `nextafter`.

A finite magnitude is an integer number of units of `2^-149`, so a sum is exact in these units and
rounded once. Magnitudes are ordered as the values they stand for.
-/
import Mathlib.Algebra.Order.Ring.Int

namespace Refrigerator.Lib

/-- A binary32 value: a sign bit above 31 bits of magnitude (exponent and fraction). -/
structure Binary32 where
  bits : BitVec 32
deriving DecidableEq, Repr

namespace Binary32

/-! ## Classes of values -/

def negative (x : Binary32) : Bool := x.bits.msb
def magnitude (x : Binary32) : Nat := x.bits.toNat % 2 ^ 31

/-- The value of a sign and a magnitude below `2^31`. -/
def pack (negative : Bool) (magnitude : Nat) : Binary32 :=
  ⟨BitVec.ofNat 32 (if negative then 2 ^ 31 + magnitude else magnitude)⟩

theorem magnitude_pack {n : Bool} {m : Nat} (h : m < 2 ^ 31) : (pack n m).magnitude = m := by
  unfold magnitude pack
  cases n <;> simp <;> omega

/-- The magnitude of an infinity; the ones above it are NaNs. -/
def infinityMagnitude : Nat := 0x7f800000

def isFinite (x : Binary32) : Bool := x.magnitude < infinityMagnitude
def isNaN (x : Binary32) : Bool := infinityMagnitude < x.magnitude

def zero : Binary32 := pack false 0
def infinity : Binary32 := pack false infinityMagnitude
def nan : Binary32 := pack false 0x7fc00000

theorem isFinite_infinity : infinity.isFinite = false := by decide

/-! ## Order -/

/-- The position of a value in the order of the format; both zeros have the same. -/
def key (x : Binary32) : Int := if x.negative then -x.magnitude else x.magnitude

def lt (x y : Binary32) : Bool := !x.isNaN && !y.isNaN && x.key < y.key

/-! ## Addition -/

/-- The number of units of `2^-149` in a finite magnitude. -/
def units (magnitude : Nat) : Nat :=
  if magnitude < 2 ^ 23 then magnitude else (magnitude % 2 ^ 23 + 2 ^ 23) * 2 ^ (magnitude / 2 ^ 23 - 1)

/-- The magnitude nearest to `n` units, ties to even; too large numbers round to infinity. -/
def roundUnits (n : Nat) : Nat :=
  let k := n.log2 - 23
  let q := n / 2 ^ k
  let r := n % 2 ^ k
  let up := 2 ^ k < 2 * r ∨ (2 * r = 2 ^ k ∧ q % 2 = 1)
  min (k * 2 ^ 23 + if up then q + 1 else q) infinityMagnitude

/-- The signed number of units of a finite value. -/
def value (x : Binary32) : Int := if x.negative then -(units x.magnitude) else units x.magnitude

/-- The value nearest to a signed number of units. -/
def round (n : Int) : Binary32 := pack (decide (n < 0)) (roundUnits n.natAbs)

def ofNat (n : Nat) : Binary32 := round (n * 2 ^ 149)

def add (x y : Binary32) : Binary32 :=
  if x.isNaN || y.isNaN then nan
  else if !x.isFinite then (if !y.isFinite && x.negative != y.negative then nan else x)
  else if !y.isFinite then y
  else if x.magnitude = 0 ∧ y.magnitude = 0 then pack (x.negative && y.negative) 0
  else round (x.value + y.value)

theorem round_isNaN (n : Int) : (round n).isNaN = false := by
  have hle : roundUnits n.natAbs ≤ infinityMagnitude := Nat.min_le_right _ _
  have h31 : roundUnits n.natAbs < 2 ^ 31 := lt_of_le_of_lt hle (by decide)
  simp [isNaN, round, magnitude_pack h31, hle]

/-- A sum of finite values may be infinite, but not a NaN. -/
theorem add_isNaN {x y : Binary32} (hx : x.isFinite = true) (hy : y.isFinite = true) : (add x y).isNaN = false := by
  have hnan : ∀ {z : Binary32}, z.isFinite = true → z.isNaN = false := by
    intro z hz
    simp only [isFinite, isNaN, decide_eq_true_eq, decide_eq_false_iff_not] at hz ⊢
    omega
  unfold add
  rw [hnan hx, hnan hy, hx, hy]
  simp only [Bool.or_self, Bool.not_true, Bool.false_eq_true, if_false]
  split
  · cases x.negative && y.negative <;> decide
  · exact round_isNaN _

/-! ## Neighbours -/

/-- `std::nextafter`: the value next to `x` in the direction of `y`. -/
def nextafter (x y : Binary32) : Binary32 :=
  if x.isNaN || y.isNaN then nan
  else if x.key = y.key then y
  else if x.magnitude = 0 then pack y.negative 1
  else if x.lt y = !x.negative then pack x.negative (x.magnitude + 1)
  else pack x.negative (x.magnitude - 1)

/-- Going on from a finite value that is not the last one reaches a finite value. -/
theorem nextafter_isFinite {x y : Binary32} (hx : x.isFinite = true) (hy : y.isNaN = false)
    (hlast : x.key = y.key ∨ x.magnitude + 1 < infinityMagnitude) : (nextafter x y).isFinite = true := by
  have hx' : x.magnitude < infinityMagnitude := by simpa [isFinite] using hx
  have hn : x.isNaN = false := by simp [isNaN]; omega
  have hpack : ∀ {n : Bool} {m : Nat}, m < infinityMagnitude → (pack n m).isFinite = true := by
    intro n m hm
    have h31 : m < 2 ^ 31 := by unfold infinityMagnitude at hm; omega
    simp [isFinite, magnitude_pack h31, hm]
  unfold nextafter
  rw [hn, hy]
  by_cases hk : x.key = y.key
  · -- equal positions have equal magnitudes
    have hm : y.magnitude = x.magnitude := by unfold key at hk; split at hk <;> split at hk <;> omega
    simp [hk, isFinite, hm, hx']
  · have hlt := hlast.resolve_left hk
    simp only [Bool.or_self, Bool.false_eq_true, if_false, hk]
    split
    · exact hpack (by decide)
    · split
      · exact hpack hlt
      · exact hpack (by omega)

/-- The finite values at the ends of the format. -/
theorem eq_of_last {x : Binary32} (hx : x.isFinite = true) (hlast : ¬ x.magnitude + 1 < infinityMagnitude) :
    x = ⟨0x7f7fffff⟩ ∨ x = ⟨0xff7fffff⟩ := by
  obtain ⟨bits⟩ := x
  have hlt : bits.toNat < 2 ^ 32 := bits.isLt
  have hfin : bits.toNat % 2 ^ 31 < infinityMagnitude := of_decide_eq_true hx
  have hge : ¬ bits.toNat % 2 ^ 31 + 1 < infinityMagnitude := hlast
  unfold infinityMagnitude at hfin hge
  have hbits : bits.toNat = 0x7f7fffff ∨ bits.toNat = 0xff7fffff := by omega
  rcases hbits with h | h
  · exact Or.inl (congrArg mk (BitVec.eq_of_toNat_eq h))
  · exact Or.inr (congrArg mk (BitVec.eq_of_toNat_eq h))

/-- A finite value has a finite neighbour in the direction of its sum with one: at the ends of the
format the sum is the value itself. -/
theorem nextafter_one_add_isFinite {x : Binary32} (hx : x.isFinite = true) :
    (nextafter x ((ofNat 1).add x)).isFinite = true := by
  refine nextafter_isFinite hx (add_isNaN (by decide) hx) ?_
  by_cases hlast : x.magnitude + 1 < infinityMagnitude
  · exact Or.inr hlast
  · left
    rcases eq_of_last hx hlast with rfl | rfl <;> decide

example : nextafter zero ((ofNat 1).add zero) = ⟨1⟩ := by decide

/-! ## Products and square roots -/

def neg (x : Binary32) : Binary32 := ⟨x.bits ^^^ 0x80000000⟩

/-- The magnitude nearest to `n / 2 ^ s` units, ties to even. -/
def roundScaled (n s : Nat) : Nat :=
  let k := max (n.log2 - 23) s
  let q := n / 2 ^ k
  let r := n % 2 ^ k
  let up := 2 ^ k < 2 * r ∨ (2 * r = 2 ^ k ∧ q % 2 = 1)
  min ((k - s) * 2 ^ 23 + if up then q + 1 else q) infinityMagnitude

def mul (x y : Binary32) : Binary32 :=
  let negative := x.negative != y.negative
  if x.isNaN || y.isNaN then nan
  else if x.isFinite && y.isFinite then pack negative (roundScaled (units x.magnitude * units y.magnitude) 149)
  else if x.magnitude = 0 ∨ y.magnitude = 0 then nan
  else pack negative infinityMagnitude

/-- The root of `n` bit by bit, from the given number of low bits and the bits above them. -/
def isqrtFrom (n : Nat) : Nat → Nat → Nat
  | 0, root => root
  | bit + 1, root =>
    if (root + 2 ^ bit) * (root + 2 ^ bit) ≤ n then isqrtFrom n bit (root + 2 ^ bit) else isqrtFrom n bit root

/-- The integer part of the square root. -/
def isqrt (n : Nat) : Nat := isqrtFrom n (n.log2 / 2 + 1) 0

/-- The root of a finite value has at least 75 bits in half units; an odd last one stands for a rest. -/
def sqrt (x : Binary32) : Binary32 :=
  if x.isNaN then nan
  else if x.magnitude = 0 then x
  else if x.negative then nan
  else if !x.isFinite then x
  else
    let n := units x.magnitude * 2 ^ 149
    let root := isqrt n
    pack false (roundScaled (2 * root + if root * root = n then 0 else 1) 1)

example : ((ofNat 3).mul (ofNat 3)).sqrt = ofNat 3 ∧ (ofNat 2).sqrt = ⟨0x3fb504f3⟩ := by decide +kernel

end Binary32

end Refrigerator.Lib
