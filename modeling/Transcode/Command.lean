import Transcode.Text.Utf8

/-!
# Commands

A command is a program and its arguments, which reach the program byte for byte. What is shown of a
command is one line, in which some of the arguments stand in double quotes.
-/

namespace Transcode

open Text (Bytes)

/-- An argument, and whether it is shown in quotes. -/
structure Argument where
  value : Bytes
  quoted : Bool
deriving DecidableEq

/-- The invocation of a program. -/
structure Command where
  program : Bytes
  arguments : List Argument
deriving DecidableEq

namespace Argument

def bare (s : String) : Argument := ⟨Text.Utf8.encode s, false⟩

def inQuotes (s : String) : Argument := ⟨Text.Utf8.encode s, true⟩

def display (a : Argument) : String :=
  if a.quoted then "\"" ++ Text.Utf8.lossy a.value ++ "\"" else Text.Utf8.lossy a.value

end Argument

namespace Command

def ofProgram (program : Bytes) : Command := ⟨program, []⟩

def push (c : Command) (a : Argument) : Command :=
  { c with arguments := c.arguments ++ [a] }

def append (c : Command) (args : List Argument) : Command :=
  { c with arguments := c.arguments ++ args }

/-- What the program is given. -/
def values (c : Command) : List Bytes :=
  c.arguments.map (·.value)

def display (c : Command) : String :=
  c.arguments.foldl (fun line a => line ++ " " ++ a.display) (Text.Utf8.lossy c.program)

/-- Appending arguments is pushing them one after the other. -/
theorem append_eq_foldl_push (c : Command) (args : List Argument) :
    c.append args = args.foldl push c := by
  induction args generalizing c with
  | nil => simp [append]
  | cons a args ih => simp [← ih, append, push]

@[simp] theorem values_push (c : Command) (a : Argument) :
    (c.push a).values = c.values ++ [a.value] := by
  simp [values, push]

@[simp] theorem display_push (c : Command) (a : Argument) :
    (c.push a).display = c.display ++ " " ++ a.display := by
  simp [display, push, List.foldl_append]

end Command

end Transcode
