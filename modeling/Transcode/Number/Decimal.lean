import Transcode.Number.Integer
import Transcode.Number.Binary64

/-!
# Decimal numbers as text

A decimal number is written with an optional sign, digits with at most one point among them or at
their ends, and an optional exponent. It is read as the nearest binary64 number. The spellings of
infinity and of no number at all are refused with everything else, and so is a number beyond the
finite ones: no rule of this library has a use for them.
-/

namespace Transcode.Number

/-- The parts of a decimal number: `digits * 10 ^ exponent`, with a sign. -/
structure Decimal where
  negative : Bool
  digits : Nat
  digitCount : Nat
  exponent : Int
deriving DecidableEq, Repr

namespace Decimal

def spanDigits (cs : List Char) : List Char × List Char :=
  (cs.takeWhile isDigit, cs.dropWhile isDigit)

/-- Reads the part after the digits: nothing, or a mark and a whole number. -/
def exponent? : List Char → Option Int
  | [] => some 0
  | c :: cs => if c == 'e' || c == 'E' then integerChars? cs else none

def unsigned? (negative : Bool) (cs : List Char) : Option Decimal :=
  let whole := (spanDigits cs).1
  let rest := (spanDigits cs).2
  let fraction := match rest with
    | '.' :: tail => (spanDigits tail).1
    | _ => []
  let tail := match rest with
    | '.' :: tail => (spanDigits tail).2
    | _ => rest
  let digits := whole ++ fraction
  if digits.isEmpty then none
  else (exponent? tail).map fun exponent : Int =>
    ⟨negative, digitsValue digits, (digits.dropWhile (· == '0')).length,
      exponent - (fraction.length : Int)⟩

def chars? : List Char → Option Decimal
  | '-' :: cs => unsigned? true cs
  | '+' :: cs => unsigned? false cs
  | cs => unsigned? false cs

/-- The nearest binary64 number, if it is finite. -/
def toBinary64? (d : Decimal) : Option Binary64 :=
  (Binary64.nearestDecimal? d.digits d.digitCount d.exponent).map fun units =>
    ⟨d.negative, units⟩

end Decimal

/-- Reads a finite decimal number as the nearest binary64 number. -/
def finite? (s : String) : Option Binary64 :=
  (Decimal.chars? s.toList).bind Decimal.toBinary64?

example : Decimal.chars? "1.50e-3".toList = some ⟨false, 150, 3, -5⟩ := by decide
example : Decimal.chars? ".5".toList = some ⟨false, 5, 1, -1⟩ := by decide
example : Decimal.chars? "-5.".toList = some ⟨true, 5, 1, 0⟩ := by decide
example : Decimal.chars? ".".toList = none ∧ Decimal.chars? "1e".toList = none := by decide
example : Decimal.chars? "inf".toList = none ∧ Decimal.chars? "+-1".toList = none := by decide

end Transcode.Number
