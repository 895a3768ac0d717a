import Transcode.Json.Basic
import Transcode.Number.Integer

/-!
# JSON numbers

The grammar has no plus sign, no leading zeros, and digits on both sides of a point. A number with a
fraction, an exponent or too many digits is approximated: the digits that fit an unsigned 64-bit word
are rounded to binary64, and then multiplied or divided by a rounded power of ten. A number beyond
the finite ones is refused.
-/

namespace Transcode.Json

open Number

/-- The parts of a number's text. -/
structure Numeral where
  negative : Bool
  whole : List Char
  fraction : List Char
  exponent : Option (Bool × List Char)

namespace Numeral

def digits1? (cs : List Char) : Option (List Char × List Char) :=
  if (cs.takeWhile isDigit).isEmpty then none
  else some (cs.takeWhile isDigit, cs.dropWhile isDigit)

/-- Reads the digits before a point: a zero alone, or digits that start with another one. -/
def whole? : List Char → Option (List Char × List Char)
  | '0' :: cs => if (cs.takeWhile isDigit).isEmpty then some (['0'], cs) else none
  | cs => digits1? cs

/-- Reads a point and the digits after it, if there is a point. -/
def fraction? : List Char → Option (List Char × List Char)
  | '.' :: cs => digits1? cs
  | cs => some ([], cs)

/-- Reads an exponent, negative or not, if there is one. -/
def exponent? : List Char → Option (Option (Bool × List Char) × List Char)
  | c :: cs =>
    if c == 'e' || c == 'E' then
      match cs with
      | '-' :: cs => (digits1? cs).map fun (ds, rest) => (some (true, ds), rest)
      | '+' :: cs => (digits1? cs).map fun (ds, rest) => (some (false, ds), rest)
      | cs => (digits1? cs).map fun (ds, rest) => (some (false, ds), rest)
    else some (none, c :: cs)
  | [] => some (none, [])

def unsigned? (negative : Bool) (cs : List Char) : Option (Numeral × List Char) := do
  let (whole, cs) ← whole? cs
  let (fraction, cs) ← fraction? cs
  let (exponent, cs) ← exponent? cs
  return (⟨negative, whole, fraction, exponent⟩, cs)

/-- Reads the parts of a number with an optional minus sign. -/
def read? : List Char → Option (Numeral × List Char)
  | '-' :: cs => unsigned? true cs
  | cs => unsigned? false cs

/-- Appends digits to a number while it fits an unsigned 64-bit word; the digits left over follow. -/
def appendDigits (n : Nat) : List Char → Nat × List Char
  | [] => (n, [])
  | c :: cs =>
    if n * 10 + (c.toNat - 48) < UInt64.size then appendDigits (n * 10 + (c.toNat - 48)) cs
    else (n, c :: cs)

/-- Multiplies by a power of ten. Powers below 10^-308 are reached by dividing by 10^308 first; once
the number is zero the rest of the power does not matter. -/
def scale? (x : Binary64) (exponent : Int) : Nat → Option Binary64
  | 0 => some x
  | steps + 1 =>
    if exponent.natAbs ≤ 308 then
      if 0 ≤ exponent then x.mul? (Binary64.powerOfTen exponent.toNat)
      else x.div? (Binary64.powerOfTen (-exponent).toNat)
    else if x.units = 0 then some x
    else if 0 ≤ exponent then none
    else (x.div? (Binary64.powerOfTen 308)).bind fun y => scale? y (exponent + 308) steps

/-- The approximation of a number with a fraction, an exponent or too many digits. -/
def approximate? (n : Numeral) : Option Binary64 :=
  let (whole, unread) := appendDigits 0 n.whole
  let (digits, ignored) := appendDigits whole n.fraction
  let exponent : Int := (unread.length : Int) - ((n.fraction.length - ignored.length : Nat) : Int)
  let zero : Binary64 := ⟨n.negative, 0⟩
  let start : Binary64 := ⟨n.negative, (Binary64.nearest? (digits * Binary64.one) 1).getD 0⟩
  match n.exponent with
  | none => scale? start exponent 4
  | some (below, ds) =>
    let shift := digitsValue ds
    if Int32.maxValue.toInt < shift then
      if digits ≠ 0 ∧ below = false then none else some zero
    else scale? start (if below then exponent - shift else exponent + shift) 4

/-- The value of a number: an integer if it is written as one and fits a 64-bit word. The negative
zero is not an integer. -/
def value? (n : Numeral) : Option Json :=
  let digits := digitsValue n.whole
  if n.fraction.isEmpty && n.exponent.isNone && digits < UInt64.size then
    if !n.negative then some (.integer digits)
    else if 0 < digits && Int64.minValue.toInt ≤ -(digits : Int) then some (.integer (-(digits : Int)))
    else some (.real ⟨true, (Binary64.nearest? (digits * Binary64.one) 1).getD 0⟩)
  else (approximate? n).map .real

end Numeral

end Transcode.Json
