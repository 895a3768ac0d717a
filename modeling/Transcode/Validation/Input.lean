import Transcode.Number.Decimal
import Transcode.Profile.Range
import Transcode.Text.Blank
import Transcode.Validation.Fault

/-!
# Checking typed values

What is typed is trimmed and then checked against a range, or read as the number of a choice, as one
side of a picture, or as a picture size.
-/

namespace Transcode

open Number

/-! ## Values in a range -/

/-- A bit rate. Megabits may add up to more than every finite number. -/
inductive BitRate where
  | kbps (x : Binary64)
  | unbounded
deriving DecidableEq

/-- The bit rate of a number of megabits. -/
def BitRate.ofMegabits (x : Binary64) : BitRate :=
  match Binary64.nearest? (x.units * 1000) 1 with
  | some units => .kbps ⟨x.negative, units⟩
  | none => .unbounded

/-- Reads a bit rate: a decimal number of kilobits before `k` or `K`, one of megabits before `M`, or
a whole number of kilobits. A bare fraction is refused, since a bare number is given its unit when it
is rendered. -/
def bitRate? (s : String) : Option BitRate :=
  match s.toList.getLast? with
  | some 'k' | some 'K' => (finite? (String.ofList s.toList.dropLast)).map .kbps
  | some 'M' => (finite? (String.ofList s.toList.dropLast)).map .ofMegabits
  | _ => (int64? s).map fun n => .kbps (.ofInt64 n)

def Range.containsRate (r : Range) : BitRate → Bool
  | .kbps x => r.containsFloat x
  | .unbounded => false

def checkTrimmed (r : Range) (value : String) : Except InputFault Unit :=
  match r with
  | .any => .ok ()
  | .oneOf _ =>
    if r.containsText value then .ok () else .error (.notAllowed value r.display)
  | .int _ _ =>
    match int64? value with
    | none => .error (.notANumber value)
    | some n => if r.containsInt n then .ok () else .error (.outOfRange value r.display)
  | .kbps _ _ =>
    match bitRate? value with
    | none => .error (.notANumber value)
    | some rate => if r.containsRate rate then .ok () else .error (.outOfRange value r.display)
  | .float _ _ =>
    match finite? value with
    | none => .error (.notANumber value)
    | some x => if r.containsFloat x then .ok () else .error (.outOfRange value r.display)

def checkInput (r : Range) (line : String) : Except InputFault Unit :=
  checkTrimmed r (Text.trim line)

/-! ## Choices -/

/-- Reads the number of an entry of a list, counted from one, as an index counted from zero. -/
def choiceIndex? (line : String) (count : Nat) : Option Nat :=
  match word? 64 (Text.trim line) with
  | some n => if 1 ≤ n ∧ n ≤ count then some (n - 1) else none
  | none => none

/-- Reads the number of an entry of a list, or answers why it is none. -/
def checkChoice (line : String) (count : Nat) : Except InputFault Nat :=
  match choiceIndex? line count with
  | some i => .ok i
  | none => .error (.invalidChoice line count)

theorem choiceIndex?_lt {line : String} {count i : Nat} (h : choiceIndex? line count = some i) :
    i < count := by
  simp only [choiceIndex?] at h
  split at h
  · split at h
    · have := Option.some.inj h
      omega
    · cases h
  · cases h

/-! ## Picture sizes -/

/-- Reads one side of a picture, a positive 32-bit number. -/
def checkDimension (line : String) : Except InputFault Nat :=
  match word? 32 (Text.trim line) with
  | some n => if 0 < n then .ok n else .error (.invalidDimension (Text.trim line))
  | none => .error (.invalidDimension (Text.trim line))

/-- A picture size. A side of -1 follows from the other one, and a side of -2 as well, rounded to an
even number. -/
structure Resolution where
  width : Int
  height : Int
deriving DecidableEq

def Resolution.display (r : Resolution) : String :=
  intText r.width ++ ":" ++ intText r.height

def side? (s : String) : Option Int :=
  (int32? (Text.trim s)).filter fun n => 0 < n || n == -1 || n == -2

/-- Reads a trimmed picture size: two sides, of which at most one follows from the other. -/
def resolution? (s : String) : Option Resolution :=
  let width := s.toList.takeWhile (· != ':')
  match s.toList.dropWhile (· != ':') with
  | [] => none
  | _ :: height =>
    match side? (String.ofList width), side? (String.ofList height) with
    | some w, some h => if w < 0 && h < 0 then none else some ⟨w, h⟩
    | _, _ => none

def checkResolution (line : String) : Except InputFault Resolution :=
  match resolution? (Text.trim line) with
  | some r => .ok r
  | none => .error (.invalidResolution (Text.trim line))

end Transcode
