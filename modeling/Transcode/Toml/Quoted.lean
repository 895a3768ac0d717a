import Transcode.Text.Hex

/-!
# Quoted text in TOML

There are four notations. Double quotes allow escapes and single quotes do not; one quote keeps the
text on one line and three do not. A text is written in the first notation that needs no escapes, and
with escapes in double quotes if there is none.
-/

namespace Transcode.Toml

/-- A notation for text. -/
structure Quoting where
  quote : Char
  escapes : Bool
  lines : Bool
deriving DecidableEq

namespace Quoting

def basic : Quoting := ⟨'"', true, false⟩

def basicLines : Quoting := ⟨'"', true, true⟩

def literal : Quoting := ⟨'\'', false, false⟩

def literalLines : Quoting := ⟨'\'', false, true⟩

def delimiter (q : Quoting) : List Char :=
  List.replicate (if q.lines then 3 else 1) q.quote

end Quoting

/-- Whether a character may stand in a text or a comment as it is. -/
def isPlain (c : Char) : Bool :=
  c == '\t' || (0x20 ≤ c.toNat && c.toNat != 0x7F)

def isGap (c : Char) : Bool :=
  c == ' ' || c == '\t'

/-! ## Reading -/

def character? (n : Nat) : Option Char :=
  if n < 0xD800 || (0xDFFF < n && n < 0x110000) then some (Char.ofNat n) else none

/-- The character with a code point of a fixed count of hexadecimal digits. -/
def codePoint? (count : Nat) (cs : List Char) : Option (Char × List Char) := do
  let digits ← (cs.take count).mapM Text.hexDigit?
  if digits.length = count then
    return (← character? (digits.foldl (fun n d => n * 16 + d) 0), cs.drop count)
  else none

/-- The character that a letter stands for after a backslash. -/
def simpleEscape? : Char → Option Char
  | '"' => some '"'
  | '\\' => some '\\'
  | 'b' => some '\x08'
  | 'f' => some '\x0c'
  | 'n' => some '\n'
  | 'r' => some '\r'
  | 't' => some '\t'
  | _ => none

/-- What is meant by the characters after a backslash. At the end of a line a backslash removes the
blanks and line ends that follow. -/
def escape? (q : Quoting) : List Char → Option (List Char × List Char)
  | 'u' :: cs => (codePoint? 4 cs).map fun (c, rest) => ([c], rest)
  | 'U' :: cs => (codePoint? 8 cs).map fun (c, rest) => ([c], rest)
  | cs =>
    match cs.head?.bind simpleEscape?, q.lines, cs.dropWhile isGap with
    | some c, _, _ => some ([c], cs.drop 1)
    | none, true, '\n' :: rest => some ([], rest.dropWhile fun c => isGap c || c == '\n')
    | none, _, _ => none

/-- Reads a text up to and with its closing quotes. The first argument bounds the number of
characters. Up to two quotes may stand directly before three closing ones. -/
def body? (q : Quoting) : Nat → List Char → Option (List Char × List Char)
  | 0, _ => none
  | _ + 1, [] => none
  | bound + 1, c :: cs =>
    if c == q.quote then
      if !q.lines then some ([], cs)
      else
        let run := (c :: cs).takeWhile (· == q.quote)
        let rest := (c :: cs).dropWhile (· == q.quote)
        if run.length < 3 then (body? q bound rest).map fun (t, rest) => (run ++ t, rest)
        else if run.length < 6 then some (run.drop 3, rest)
        else none
    else if c == '\\' && q.escapes then
      match escape? q cs with
      | none => none
      | some (meant, rest) => (body? q bound rest).map fun (t, rest) => (meant ++ t, rest)
    else if isPlain c || (q.lines && c == '\n') then
      (body? q bound cs).map fun (t, rest) => (c :: t, rest)
    else none

/-- Reads a text after its opening quotes. A line end directly after three of them does not count. -/
def text? (q : Quoting) (cs : List Char) : Option (String × List Char) :=
  let cs := match q.lines, cs with
    | true, '\n' :: rest => rest
    | _, cs => cs
  (body? q (cs.length + 1) cs).map fun (t, rest) => (String.ofList t, rest)

/-- The notation that the first characters of a text announce, and what follows its quotes. -/
def opening? : List Char → Option (Quoting × List Char)
  | '"' :: '"' :: '"' :: cs => some (.basicLines, cs)
  | '\'' :: '\'' :: '\'' :: cs => some (.literalLines, cs)
  | '"' :: cs => some (.basic, cs)
  | '\'' :: cs => some (.literal, cs)
  | _ => none

/-! ## Writing -/

/-- Whether a character can only be written with an escape. -/
def isControl (c : Char) : Bool :=
  (c.toNat < 0x20 || c.toNat == 0x7F) && c != '\t' && c != '\n'

/-- The length of the longest run of a character. -/
def longestRun (c : Char) : Nat → List Char → Nat
  | run, [] => run
  | run, d :: cs => if c == d then longestRun c (run + 1) cs else max run (longestRun c 0 cs)

/-- The notation in which a text is written. -/
def notationFor (cs : List Char) : Quoting :=
  let controls := cs.any isControl
  let backslash := cs.contains '\\'
  let lines := cs.contains '\n'
  let doubles := longestRun '"' 0 cs
  let singles := longestRun '\'' 0 cs
  if !controls && !backslash && !lines && doubles = 0 then .basic
  else if !controls && !lines && singles = 0 then .literal
  else if !controls && !backslash && doubles < 3 then .basicLines
  else if !controls && singles < 3 then .literalLines
  else if lines then .basicLines
  else .basic

/-- The characters of a text between double quotes; `run` counts the quotes directly before. On one
line every quote is escaped, on several lines every third of a run. -/
def escaped (lines : Bool) (run : Nat) : List Char → List Char
  | [] => []
  | c :: cs =>
    if c = '"' then
      if lines && run < 2 then c :: escaped lines (run + 1) cs
      else '\\' :: c :: escaped lines 0 cs
    else
      let written :=
        if c = '\x08' then ['\\', 'b']
        else if c = '\t' then ['\\', 't']
        else if c = '\n' then if lines then [c] else ['\\', 'n']
        else if c = '\x0c' then ['\\', 'f']
        else if c = '\r' then ['\\', 'r']
        else if c = '\\' then ['\\', '\\']
        else if isControl c then
          ['\\', 'u', '0', '0', (Text.hexChar (c.toNat / 16)).toUpper,
            (Text.hexChar (c.toNat % 16)).toUpper]
        else [c]
      written ++ escaped lines 0 cs

/-- A text in quotes. Where it has several lines, it starts on a line of its own. -/
def quoted (s : String) : List Char :=
  let cs := s.toList
  let q := notationFor cs
  let start := if q.lines && cs.contains '\n' then ['\n'] else []
  let body := if q.escapes then escaped q.lines 0 cs else cs
  q.delimiter ++ start ++ body ++ q.delimiter

example : quoted "a\"b" = "'a\"b'".toList := by decide
example : quoted "it's \"so\"" = "\"\"\"it's \"so\"\"\"\"".toList := by decide
example : quoted "C:\\x" = "'C:\\x'".toList := by decide
example : quoted "a\nb" = "\"\"\"\na\nb\"\"\"".toList := by decide
example : (text? .basic "\\u00e9\\t\" x".toList) = some ("\u00e9\t", [' ', 'x']) := by decide
example : (text? .basicLines "\na \\ \n  b\"\"\"\"".toList) = some ("a b\"", []) := by decide

end Transcode.Toml
