import Transcode.Number.Integer

/-!
# Faults of typed and stored values

A fault names the value it is about in the form in which it was checked.
-/

namespace Transcode

/-- What is wrong with a value. -/
inductive InputFault where
  | notANumber (value : String)
  | outOfRange (value range : String)
  | notAllowed (value allowed : String)
  | invalidChoice (line : String) (count : Nat)
  | invalidDimension (value : String)
  | invalidResolution (value : String)
deriving DecidableEq

/-- What is wrong with the value stored under a key. -/
structure StoredFault where
  key : String
  reason : InputFault
deriving DecidableEq

def InputFault.message : InputFault → String
  | notANumber value => "'" ++ value ++ "' is not a number"
  | outOfRange value range => value ++ " is out of range (" ++ range ++ ")"
  | notAllowed value allowed => "'" ++ value ++ "' is not one of: " ++ allowed
  | invalidChoice line count =>
    "'" ++ line ++ "' is not a valid choice, enter 1-" ++ Number.natText count
  | invalidDimension value =>
    "'" ++ value ++ "' is not a valid dimension, expected a positive integer"
  | invalidResolution value =>
    "'" ++ value ++
      "' is not a valid resolution, expected W:H (use -1 on one side to keep aspect ratio)"

/-- The text of a fault with the key it is about. -/
def StoredFault.message (f : StoredFault) : String :=
  "setting '" ++ f.key ++ "': " ++ f.reason.message

end Transcode
