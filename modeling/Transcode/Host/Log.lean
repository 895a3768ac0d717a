import Transcode.Text.Shown

/-!
# Log lines

A log line is a level and a message. How much of the log is shown is chosen by a number: warnings and
errors always, progress from one on, details from two on. Characters that a terminal would obey are
escaped.
-/

namespace Transcode

/-- How much a log line matters. -/
inductive LogLevel where
  | error
  | warning
  | info
  | debug
deriving DecidableEq

namespace LogLevel

def word : LogLevel → String
  | error => "ERROR"
  | warning => "WARN"
  | info => "INFO"
  | debug => "DEBUG"

/-- The verbosity from which on a level is shown. -/
def threshold : LogLevel → Nat
  | error | warning => 0
  | info => 1
  | debug => 2

/-- A character as it stands in a log line. -/
def escape (c : Char) : List Char :=
  if c = '\x1b' then "\\x1b".toList
  else if c = '\x07' then "\\x07".toList
  else if c = '\x08' then "\\x08".toList
  else if c = '\x0c' then "\\x0c".toList
  else if c = '\x7f' then "\\x7f".toList
  else if 0x80 ≤ c.toNat && c.toNat ≤ 0x9F then Text.codePoint c
  else [c]

def line (level : LogLevel) (message : String) : String :=
  level.word ++ " " ++ String.ofList (message.toList.flatMap escape)

end LogLevel

end Transcode
