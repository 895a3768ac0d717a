import Transcode.Number.Binary64

/-!
# TOML values

A document is a table. Tables come about in four ways, which decide what may still be added to them:
by a header, as a step on the way of a header, as a step of a dotted key, and between braces.
-/

namespace Transcode

namespace Toml

/-- How a table came about. -/
inductive TableStyle where
  | header
  | implied
  | dotted
  | inline
deriving DecidableEq

/-- A number that is no integer. Numbers below the finite ones are infinite; those above are not
read. -/
inductive Real where
  | finite (x : Number.Binary64)
  | infinite (negative : Bool)
  | undefined
deriving DecidableEq

end Toml

/-- A TOML value. -/
inductive Toml where
  | text (s : String)
  | integer (n : Int64)
  | real (x : Toml.Real)
  | bool (b : Bool)
  /-- A date, a time, or both, as written. -/
  | moment (written : String)
  | list (items : List Toml)
  | table (style : Toml.TableStyle) (entries : List (String × Toml))
  /-- Tables under one header, given one after the other. -/
  | tables (items : List (List (String × Toml)))

namespace Toml

abbrev Entries := List (String × Toml)

def find? (key : String) (entries : Entries) : Option Toml :=
  (entries.find? fun e => e.1 == key).map (·.2)

/-- Puts a value under a key, in the stead of one that is there. -/
def put (key : String) (value : Toml) : Entries → Entries
  | [] => [(key, value)]
  | e :: rest => if e.1 = key then (key, value) :: rest else e :: put key value rest

def drop (key : String) (entries : Entries) : Entries :=
  entries.filter fun e => e.1 != key

end Toml

end Transcode
