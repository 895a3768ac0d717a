/-!
# Finite binary64 numbers

A finite binary64 number is a sign and a whole number of units, a unit being 2^-1074, the smallest
positive number of the format. Rounding, comparison and arithmetic are then exact computations on
natural numbers.
-/

namespace Transcode.Number

/-- A sign and a number of units of 2^-1074. Zero has both signs. -/
structure Binary64 where
  negative : Bool
  units : Nat
deriving DecidableEq, Inhabited

namespace Binary64

/-- Units in the number one. -/
def one : Nat := Nat.pow 2 1074

/-- The quotient rounded to a whole number, a half to the even neighbour. -/
def roundHalfEven (num den : Nat) : Nat :=
  let q := num / den
  let twice := 2 * (num % den)
  if twice < den then q
  else if den < twice then q + 1
  else if q % 2 = 0 then q else q + 1

/-- The distance, in units, between neighbouring numbers of the format near a number of units: one
unit up to 53 binary digits, and twice as much for every further digit. -/
def spacing (units : Nat) : Nat :=
  Nat.pow 2 (units.log2 - 52)

/-- The number of units nearest to a quotient, a half going to the even neighbour; none when it is
beyond every finite number. -/
def nearest? (num den : Nat) : Option Nat :=
  let step := spacing (num / den)
  let units := roundHalfEven num (den * step) * step
  if units < Nat.pow 2 2098 then some units else none

/-- The number nearest to a 64-bit integer. -/
def ofInt64 (n : Int64) : Binary64 :=
  ⟨n.toInt < 0, (nearest? (n.toInt.natAbs * one) 1).getD 0⟩

/-- The number nearest to a natural number. -/
def ofNat? (n : Nat) : Option Binary64 :=
  (nearest? (n * one) 1).map fun units => ⟨false, units⟩

/-- The signed number of units. Both zeros have the value zero. -/
def value (x : Binary64) : Int :=
  if x.negative then -(x.units : Int) else x.units

/-- The order of the numbers; the zeros are equal. -/
def le (x y : Binary64) : Bool :=
  x.value ≤ y.value

/-- The rounded product; none when it is beyond every finite number. -/
def mul? (x y : Binary64) : Option Binary64 :=
  (nearest? (x.units * y.units) one).map fun units => ⟨x.negative != y.negative, units⟩

/-- The rounded quotient by a number other than zero. -/
def div? (x y : Binary64) : Option Binary64 :=
  (nearest? (x.units * one) y.units).map fun units => ⟨x.negative != y.negative, units⟩

/-- The binary64 number nearest to a power of ten that is at most 10^308. -/
def powerOfTen (k : Nat) : Binary64 :=
  ⟨false, (nearest? (Nat.pow 10 k * one) 1).getD 0⟩

/-- The number of units nearest to `digits * 10 ^ exponent`. Powers of ten are formed only where the
result is neither certain to exceed the format nor certain to round to zero. -/
def nearestDecimal? (digits : Nat) (digitCount : Nat) (exponent : Int) : Option Nat :=
  if digits = 0 then some 0
  else if 310 < exponent + digitCount then none
  else if exponent + digitCount < -330 then some 0
  else if 0 ≤ exponent then nearest? (digits * Nat.pow 10 exponent.toNat * one) 1
  else nearest? (digits * one) (Nat.pow 10 (-exponent).toNat)

example : nearest? (Nat.pow 2 53 + 1) 1 = some (Nat.pow 2 53) := by decide +kernel
example : nearest? (Nat.pow 2 53 + 3) 1 = some (Nat.pow 2 53 + 4) := by decide +kernel
example : nearest? (Nat.pow 2 2098) 1 = none := by decide +kernel
example : nearest? 1 2 = some 0 ∧ nearest? 3 4 = some 1 := by decide +kernel

@[simp] theorem le_refl (x : Binary64) : x.le x = true := by
  simp [le]

end Binary64

end Transcode.Number
