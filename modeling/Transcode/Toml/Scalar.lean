import Transcode.Number.Decimal
import Transcode.Text.Hex
import Transcode.Toml.Basic

/-!
# Numbers, dates and times in TOML

A number or a date is a word of letters, digits and a few signs. Underscores may separate the digits
of a number; there are no leading zeros, except after `0x`, `0o` and `0b`. A date is a day of the
calendar, a time has seconds, of which there may be sixty, and only both together have an offset.
-/

namespace Transcode.Toml

open Number (isDigit digitsValue toInt64? Decimal)

def isWordChar (c : Char) : Bool :=
  c.isAlphanum || c == '+' || c == '-' || c == '_' || c == '.' || c == ':'

/-! ## Numbers -/

/-- Takes the underscores out of digits. Each has to stand between two digits. -/
def ungroup? (p : Char → Bool) : Bool → List Char → Option (List Char)
  | afterDigit, [] => if afterDigit then some [] else none
  | afterDigit, c :: cs =>
    if c == '_' then if afterDigit then ungroup? p false cs else none
    else if p c then (ungroup? p true cs).map (c :: ·)
    else none

/-- Digits that start with a zero only if they are no more than that. -/
def whole? (cs : List Char) : Option (List Char) :=
  match ungroup? isDigit false cs with
  | some ('0' :: _ :: _) => none
  | digits => digits

/-- A sign, if there is one: whether it is a minus, and what follows. -/
def splitSign : List Char → Bool × List Char
  | '-' :: cs => (true, cs)
  | '+' :: cs => (false, cs)
  | cs => (false, cs)

def based? (base : Nat) (cs : List Char) : Option Int64 :=
  let digit? (c : Char) : Option Nat := (Text.hexDigit? c).filter fun n => n < base
  (ungroup? (fun c => (digit? c).isSome) false cs).bind fun digits =>
    toInt64? (digits.foldl (fun n c => n * base + (digit? c).getD 0) 0)

def integer? : List Char → Option Int64
  | '0' :: 'x' :: cs => based? 16 cs
  | '0' :: 'o' :: cs => based? 8 cs
  | '0' :: 'b' :: cs => based? 2 cs
  | cs =>
    let (negative, cs) := splitSign cs
    (whole? cs).bind fun digits =>
      let n : Int := digitsValue digits
      toInt64? (if negative then -n else n)

def exponent? : List Char → Option Int
  | c :: cs =>
    if c == 'e' || c == 'E' then
      let (negative, cs) := splitSign cs
      (ungroup? isDigit false cs).map fun digits =>
        let n : Int := digitsValue digits
        if negative then -n else n
    else none
  | [] => none

/-- A number with a fraction, an exponent, or both. -/
def decimal? (cs : List Char) : Option Decimal := do
  let (negative, cs) := splitSign cs
  let isPart (c : Char) : Bool := isDigit c || c == '_'
  let whole ← whole? (cs.takeWhile isPart)
  let rest := cs.dropWhile isPart
  let (fraction, rest) ← match rest with
    | '.' :: cs => do
      let fraction ← ungroup? isDigit false (cs.takeWhile isPart)
      pure (fraction, cs.dropWhile isPart)
    | rest => if rest.isEmpty then none else some ([], rest)
  let exponent ← if rest.isEmpty then some 0 else exponent? rest
  let digits := whole ++ fraction
  return ⟨negative, digitsValue digits, (digits.dropWhile (· == '0')).length,
    exponent - (fraction.length : Int)⟩

/-- A number that is no integer. -/
def real? (cs : List Char) : Option Real :=
  let (negative, unsigned) := splitSign cs
  if unsigned = ['i', 'n', 'f'] then some (.infinite negative)
  else if unsigned = ['n', 'a', 'n'] then some .undefined
  else (decimal? cs).bind fun d =>
    match d.toBinary64? with
    | some x => some (.finite x)
    | none => if d.negative then some (.infinite true) else none

/-! ## Dates and times -/

/-- A number of a fixed count of digits, within bounds. -/
def digits? (count low high : Nat) (cs : List Char) : Option (Nat × List Char) :=
  let digits := cs.take count
  let n := digitsValue digits
  if digits.length = count && digits.all isDigit && low ≤ n && n ≤ high then
    some (n, cs.drop count)
  else none

/-- Drops a character. -/
def mark? (c : Char) : List Char → Option (List Char)
  | d :: cs => if c == d then some cs else none
  | [] => none

def daysOf (year month : Nat) : Nat :=
  if month = 2 then
    if year % 4 = 0 && (year % 100 != 0 || year % 400 = 0) then 29 else 28
  else if month = 4 || month = 6 || month = 9 || month = 11 then 30
  else 31

/-- Drops a date. -/
def date? (cs : List Char) : Option (List Char) := do
  let (year, cs) ← digits? 4 0 9999 cs
  let cs ← mark? '-' cs
  let (month, cs) ← digits? 2 1 12 cs
  let cs ← mark? '-' cs
  let (_, cs) ← digits? 2 1 (daysOf year month) cs
  return cs

/-- Drops hours and minutes. -/
def clock? (cs : List Char) : Option (List Char) := do
  let (_, cs) ← digits? 2 0 23 cs
  let cs ← mark? ':' cs
  let (_, cs) ← digits? 2 0 59 cs
  return cs

/-- Drops a time. -/
def time? (cs : List Char) : Option (List Char) := do
  let cs ← clock? cs
  let cs ← mark? ':' cs
  let (_, cs) ← digits? 2 0 60 cs
  match cs with
  | '.' :: c :: cs => if isDigit c then some (cs.dropWhile isDigit) else none
  | cs => some cs

/-- Whether characters are an offset from universal time, or none. -/
def isOffset : List Char → Bool
  | [] => true
  | c :: cs =>
    if c == 'Z' || c == 'z' then cs.isEmpty
    else (c == '+' || c == '-') && clock? cs == some []

/-- Whether a word is a time, with or without an offset. -/
def isTime (cs : List Char) : Bool :=
  (time? cs).any isOffset

def isDate (cs : List Char) : Bool :=
  date? cs == some []

def isMoment (cs : List Char) : Bool :=
  match date? cs with
  | some [] => true
  | some (c :: cs) => (c == 'T' || c == 't') && isTime cs
  | none => time? cs == some []

def word? (cs : List Char) : Option Toml :=
  if cs = "true".toList then some (.bool true)
  else if cs = "false".toList then some (.bool false)
  else if isMoment cs then some (.moment (String.ofList cs))
  else match real? cs with
    | some x => some (.real x)
    | none => (integer? cs).map .integer

example : integer? "1_000".toList = some 1000 ∧ integer? "-0".toList = some 0 := by decide
example : integer? "01".toList = none ∧ integer? "1__0".toList = none := by decide
example : integer? "0xDEAD_beef".toList = some 3735928559 := by decide
example : integer? "+0x1".toList = none ∧ integer? "9223372036854775808".toList = none := by decide
example : decimal? "6.02e-3".toList = some ⟨false, 602, 3, -5⟩ := by decide
example : decimal? "1.".toList = none ∧ decimal? ".5".toList = none := by decide
example : isMoment "2024-02-29T23:59:60.5+01:00".toList = true := by decide
example : isMoment "2023-02-29".toList = false ∧ isMoment "07:32".toList = false := by decide

end Transcode.Toml
