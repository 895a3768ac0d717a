import Transcode.Json.Reader
import Transcode.Json.Writer
import Transcode.Settings.Basic

/-!
# Settings as JSON

Settings are an object of numbers and strings. A number that is no 64-bit integer is kept as its
text, the words "don't change" stand for the wish to leave a parameter alone, and a null leaves its
key unset. Of members with one name the last one counts, though all have to be values.
-/

namespace Transcode

open Number (Binary64 toInt64?)

namespace Setting

def ofText (s : String) : Setting :=
  if s = dontChangeText then dontChange else text s

/-- The value of a JSON number, text or null; null is no value. Other JSON values are refused. -/
def ofJson? : Json → Option (Option Setting)
  | .null => some none
  | .integer n =>
    match toInt64? n with
    | some n => some (some (int n))
    | none => (Binary64.ofNat? n.toNat).map fun x => some (text x.text)
  | .real x => some (some (text x.text))
  | .text s => some (some (ofText s))
  | .bool _ | .list _ | .object _ => none

def toJson : Setting → Json
  | int n => .integer n.toInt
  | text s => .text s
  | dontChange => .text dontChangeText

end Setting

namespace Settings

def storeMembers? (s : Settings) : List (String × Json) → Option Settings
  | [] => some s
  | (key, v) :: rest =>
    match Setting.ofJson? v with
    | some (some v) => storeMembers? (s.insert key v) rest
    | some none => storeMembers? (s.erase key) rest
    | none => none

def ofJson? : Json → Option Settings
  | .object members => storeMembers? Keyed.empty members
  | _ => none

def toJson (s : Settings) : Json :=
  .object (s.entries.map fun (key, v) => (key, v.toJson))

def read? (json : String) : Option Settings :=
  (Json.read? json).bind ofJson?

end Settings

end Transcode
