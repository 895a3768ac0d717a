import Transcode.Number.Integer
import Transcode.Number.Binary64

/-!
# The fewest digits

A binary64 number is written with the fewest decimal digits that read back as the same number, and
among those with the digits nearest to it; of two equally near, the larger. The notation is always
positional: there is no exponent, a whole number has no point, and the sign of zero is kept.
-/

namespace Transcode.Number

namespace Binary64

/-- The numbers that round to `units`, in quarters of a unit: from below, from above, and whether
the ends belong to them (they do when the last binary digit is zero). -/
structure Basin where
  low : Nat
  high : Nat
  closed : Bool

/-- The basin of a number other than zero. Below a power of two the neighbours are half as far. -/
def basin (units : Nat) : Basin :=
  let step := spacing units
  let below := if 1 < step ∧ units = Nat.pow 2 units.log2 then step else 2 * step
  ⟨4 * units - below, 4 * units + 2 * step, units / step % 2 = 0⟩

/-- Whether `digits * 10 ^ exponent` lies in a basin. -/
def Basin.contains (b : Basin) (digits : Nat) (exponent : Int) : Bool :=
  let num := digits * Nat.pow 10 exponent.toNat * (4 * one)
  let den := Nat.pow 10 (-exponent).toNat
  if b.closed then b.low * den ≤ num && num ≤ b.high * den
  else b.low * den < num && num < b.high * den

/-- The exponent of the first digit of a number other than zero: 10 to it is at most the number,
which is less than 10 times as much. Every number of the format is at least 10^-330. -/
def leadingExponent (units : Nat) : Int :=
  ((decimal (units * Nat.pow 10 330 / one)).length : Int) - 331

/-- The best digits on the grid of multiples of `10 ^ exponent`, if a multiple reads back. -/
def onGrid? (units : Nat) (exponent : Int) : Option Nat :=
  let num := units * Nat.pow 10 (-exponent).toNat
  let den := one * Nat.pow 10 exponent.toNat
  let down := num / den
  let up := down + 1
  let b := basin units
  match b.contains down exponent, b.contains up exponent with
  | false, false => none
  | true, false => some down
  | false, true => some up
  | true, true => if 2 * (num % den) < den then some down else some up

/-- Searches grids of one more digit at a time. -/
def searchGrids (units : Nat) : Nat → Int → Nat × Int
  | 0, exponent => (units * Nat.pow 10 (-exponent).toNat / (one * Nat.pow 10 exponent.toNat), exponent)
  | grids + 1, exponent =>
    match onGrid? units exponent with
    | some digits => (digits, exponent)
    | none => searchGrids units grids (exponent - 1)

/-- The fewest digits of a number other than zero, with the exponent of the last one. Seventeen
digits always suffice. -/
def shortest (units : Nat) : Nat × Int :=
  searchGrids units 17 (leadingExponent units)

/-- Digits without their trailing zeros, and the exponent of the last one that is left. -/
def dropZeros (digits : List Char) (exponent : Int) : List Char × Int :=
  let kept := (digits.reverse.dropWhile (· == '0')).reverse
  (kept, exponent + ((digits.length - kept.length : Nat) : Int))

/-- Digits with the last one at `10 ^ exponent`, written out with as many zeros as it takes. -/
def positional (digits : List Char) (exponent : Int) : List Char :=
  if 0 ≤ exponent then digits ++ List.replicate exponent.toNat '0'
  else
    let places := (-exponent).toNat
    if places < digits.length then
      digits.take (digits.length - places) ++ '.' :: digits.drop (digits.length - places)
    else '0' :: '.' :: (List.replicate (places - digits.length) '0' ++ digits)

def chars (x : Binary64) : List Char :=
  let body :=
    if x.units = 0 then ['0']
    else
      let (digits, exponent) := dropZeros (decimal (shortest x.units).1) (shortest x.units).2
      positional digits exponent
  if x.negative then '-' :: body else body

/-- The text of a number: the fewest digits that read back, positionally. -/
def text (x : Binary64) : String :=
  String.ofList x.chars

end Binary64

end Transcode.Number
