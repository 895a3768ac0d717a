import Transcode.Number.Shortest

/-!
# Ranges

What may be typed for a parameter: a number between bounds, both of which belong to the range, a bit
rate in kilobits per second, one of a few words, or anything.
-/

namespace Transcode

open Number

/-- A bound of a range of binary64 numbers. It may be infinite; what is no number at all is neither
above nor below anything. -/
inductive Bound where
  | finite (x : Binary64)
  | infinite (negative : Bool)
  | undefined
deriving DecidableEq

namespace Bound

def ofInt64 (n : Int64) : Bound :=
  finite (.ofInt64 n)

def le : Bound → Bound → Bool
  | undefined, _ | _, undefined => false
  | infinite true, _ | _, infinite false => true
  | infinite false, _ | _, infinite true => false
  | finite x, finite y => x.le y

def lt (a b : Bound) : Bool :=
  a.le b && !b.le a

def text : Bound → String
  | finite x => x.text
  | infinite negative => if negative then "-inf" else "inf"
  | undefined => "NaN"

end Bound

/-- The values a parameter allows. -/
inductive Range where
  | int (min max : Int64)
  | float (min max : Bound)
  | kbps (min max : Int64)
  | oneOf (values : List String)
  | any
deriving DecidableEq

namespace Range

/-- Whether an integer is in a range. In a range of binary64 numbers the nearest one is compared. -/
def containsInt (r : Range) (n : Int64) : Bool :=
  match r with
  | int min max | kbps min max => min.toInt ≤ n.toInt && n.toInt ≤ max.toInt
  | float min max => min.le (.ofInt64 n) && (Bound.ofInt64 n).le max
  | any => true
  | oneOf _ => false

def containsFloat (r : Range) (x : Binary64) : Bool :=
  match r with
  | float min max => min.le (.finite x) && (Bound.finite x).le max
  | kbps min max => (Binary64.ofInt64 min).le x && x.le (.ofInt64 max)
  | any => true
  | int _ _ | oneOf _ => false

def containsText (r : Range) (s : String) : Bool :=
  match r with
  | oneOf values => values.contains s
  | any => true
  | int _ _ | float _ _ | kbps _ _ => false

def display : Range → String
  | int min max => intText min.toInt ++ "-" ++ intText max.toInt
  | float min max => min.text ++ "-" ++ max.text
  | kbps min max =>
    intText min.toInt ++ "-" ++ intText max.toInt ++ " kbps (k or M suffix allowed)"
  | oneOf values => ", ".intercalate values
  | any => "any"

end Range

end Transcode
