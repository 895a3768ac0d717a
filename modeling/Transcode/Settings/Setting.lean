import Transcode.Number.Integer
import Transcode.Text.Blank

/-!
# Values of parameters

A parameter's value is an integer, a text, or the wish to leave the parameter alone. What a user
types is an integer whenever it reads as one.
-/

namespace Transcode

/-- The value of a parameter. `dontChange` keeps the parameter out of every command. -/
inductive Setting where
  | int (n : Int64)
  | text (s : String)
  | dontChange
deriving DecidableEq, Inhabited

namespace Setting

/-- The text of `dontChange` in menus and files. -/
def dontChangeText : String := "don't change"

def display : Setting → String
  | int n => Number.intText n.toInt
  | text s => s
  | dontChange => dontChangeText

/-- Whether a value may appear in a command. -/
def isRenderable : Setting → Bool
  | dontChange => false
  | _ => true

def ofInput (line : String) : Setting :=
  match Number.int64? (Text.trim line) with
  | some n => int n
  | none => text (Text.trim line)

@[simp] theorem display_int (n : Int64) : display (int n) = Number.intText n.toInt := rfl

@[simp] theorem display_text (s : String) : display (text s) = s := rfl

end Setting

end Transcode
