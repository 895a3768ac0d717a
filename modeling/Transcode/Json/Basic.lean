import Transcode.Number.Binary64

/-!
# JSON values

A number is kept as an integer when it is written as one and fits a 64-bit word, signed or unsigned,
and as a binary64 number otherwise. Members keep the order of the text, repetitions included; what a
repeated name means is for the reader of the value to say.
-/

namespace Transcode

/-- A JSON value. -/
inductive Json where
  | null
  | bool (b : Bool)
  | integer (n : Int)
  | real (x : Number.Binary64)
  | text (s : String)
  | list (items : List Json)
  | object (members : List (String × Json))
deriving Inhabited

end Transcode
