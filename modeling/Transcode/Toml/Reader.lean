import Transcode.Toml.Quoted
import Transcode.Toml.Scalar
import Transcode.Toml.Table

/-!
# Reading TOML

A document is read statement by statement, and the statements are then put together. Keys have fewer
than eighty parts, and lists and tables between brackets nest less than eighty deep.
-/

namespace Transcode.Toml

/-! ## Between tokens -/

/-- Lines end with a line feed, before which a carriage return may stand. -/
def joinLineEnds : List Char → List Char
  | '\r' :: '\n' :: cs => '\n' :: joinLineEnds cs
  | c :: cs => c :: joinLineEnds cs
  | [] => []

def skipGaps (cs : List Char) : List Char :=
  cs.dropWhile isGap

def skipComment : List Char → List Char
  | '#' :: cs => cs.dropWhile isPlain
  | cs => cs

/-- Drops what may stand between the last token of a line and the next line. -/
def endLine? (cs : List Char) : Option (List Char) :=
  match skipComment (skipGaps cs) with
  | [] => some []
  | '\n' :: rest => some rest
  | _ :: _ => none

/-- Drops gaps, line ends and whole comments, which may stand between the items of a list. -/
def skipFiller (inComment : Bool) : List Char → Option (List Char)
  | [] => if inComment then none else some []
  | c :: cs =>
    if c == '\n' then skipFiller false cs
    else if inComment then if isPlain c then skipFiller true cs else none
    else if isGap c then skipFiller false cs
    else if c == '#' then skipFiller true cs
    else some (c :: cs)

/-! ## Keys -/

/-- The most parts that a key, and the most levels that a value may have, and one more. -/
def nestingLimit : Nat := 80

/-- Whether a character may stand in a key without quotes. -/
def isBareKeyChar (c : Char) : Bool :=
  c.isAlphanum || c == '-' || c == '_'

def keyPart? : List Char → Option (String × List Char)
  | '"' :: cs => text? .basic cs
  | '\'' :: cs => text? .literal cs
  | cs =>
    let name := cs.takeWhile isBareKeyChar
    if name.isEmpty then none else some (String.ofList name, cs.dropWhile isBareKeyChar)

/-- Reads a key: parts with dots between them, and gaps around them. The first argument bounds the
number of parts. -/
def keyParts? : Nat → List Char → Option (List String × List Char)
  | 0, _ => none
  | bound + 1, cs =>
    match keyPart? (skipGaps cs) with
    | none => none
    | some (part, rest) =>
      match skipGaps rest with
      | '.' :: rest => (keyParts? bound rest).map fun (parts, rest) => (part :: parts, rest)
      | rest => some ([part], rest)

/-- Reads a key, apart from its last part and in it. -/
def key? (cs : List Char) : Option ((List String × String) × List Char) :=
  (keyParts? (nestingLimit - 1) cs).bind fun (parts, rest) =>
    parts.getLast?.map fun last => ((parts.dropLast, last), rest)

/-! ## Values -/

/-- Reads a number, a date, a time or a truth value. Between a date and a time may be a space. -/
def scalar? (cs : List Char) : Option (Toml × List Char) :=
  let word := cs.takeWhile isWordChar
  let rest := cs.dropWhile isWordChar
  match isDate word, rest with
  | true, ' ' :: after =>
    let time := after.takeWhile isWordChar
    if time.isEmpty then some (.moment (String.ofList word), rest)
    else if isTime time then
      some (.moment (String.ofList (word ++ ' ' :: time)), after.dropWhile isWordChar)
    else none
  | _, _ => (word? word).map fun v => (v, rest)

mutual

/-- Reads a value. The first argument bounds the number of nested calls, the second the number of
brackets that may still open. -/
def value? : Nat → Nat → List Char → Option (Toml × List Char)
  | 0, _, _ => none
  | calls + 1, depth, cs =>
    match opening? cs with
    | some (q, rest) => (text? q rest).map fun (s, rest) => (.text s, rest)
    | none =>
      match cs, depth with
      | '[' :: _, 0 | '\x7b' :: _, 0 => none
      | '[' :: rest, depth + 1 =>
        (items? calls depth rest).map fun (items, rest) => (.list items, rest)
      | '\x7b' :: rest, depth + 1 =>
        match skipGaps rest with
        | '\x7d' :: rest => some (.table .inline [], rest)
        | rest =>
          (assignments? calls depth rest).bind fun (assignments, rest) =>
            (inlineTable? assignments).map fun t => (t, rest)
      | cs, _ => scalar? cs

/-- Reads the items of a list, up to and with the closing bracket. -/
def items? : Nat → Nat → List Char → Option (List Toml × List Char)
  | 0, _, _ => none
  | calls + 1, depth, cs =>
    match skipFiller false cs with
    | none => none
    | some (']' :: rest) => some ([], rest)
    | some rest =>
      match value? calls depth rest with
      | none => none
      | some (v, rest) =>
        match skipFiller false rest with
        | some (',' :: rest) => (items? calls depth rest).map fun (vs, rest) => (v :: vs, rest)
        | some (']' :: rest) => some ([v], rest)
        | _ => none

/-- Reads the assignments between braces, up to and with the closing brace. -/
def assignments? :
    Nat → Nat → List Char → Option (List (List String × String × Toml) × List Char)
  | 0, _, _ => none
  | calls + 1, depth, cs =>
    match key? cs with
    | some ((outer, key), '=' :: rest) =>
      match value? calls depth (skipGaps rest) with
      | none => none
      | some (v, rest) =>
        match skipGaps rest with
        | ',' :: rest =>
          (assignments? calls depth rest).map fun (more, rest) => ((outer, key, v) :: more, rest)
        | '\x7d' :: rest => some ([(outer, key, v)], rest)
        | _ => none
    | _ => none

end

/-! ## Documents -/

/-- Reads a statement, up to the end of its line. -/
def statement? (cs : List Char) : Option (Statement × List Char) :=
  match cs with
  | '[' :: '[' :: cs =>
    match key? cs with
    | some ((outer, key), ']' :: ']' :: rest) =>
      (endLine? rest).map fun rest => (.arrayHeader outer key, rest)
    | _ => none
  | '[' :: cs =>
    match key? cs with
    | some ((outer, key), ']' :: rest) =>
      (endLine? rest).map fun rest => (.header outer key, rest)
    | _ => none
  | cs =>
    match key? cs with
    | some ((outer, key), '=' :: rest) =>
      (value? (2 * cs.length) (nestingLimit - 1) (skipGaps rest)).bind fun (v, rest) =>
        (endLine? rest).map fun rest => (.assign outer key v, rest)
    | _ => none

/-- Reads the statements of a document. The first argument bounds the number of lines. -/
def statements? : Nat → List Char → Option (List Statement)
  | 0, _ => none
  | lines + 1, cs =>
    match skipGaps cs with
    | [] => some []
    | '\n' :: rest => statements? lines rest
    | '#' :: rest => (endLine? ('#' :: rest)).bind (statements? lines)
    | rest =>
      (statement? rest).bind fun (s, rest) => (statements? lines rest).map (s :: ·)

/-- Reads a document. A mark of the byte order at its start does not count. -/
def read? (s : String) : Option Entries :=
  let cs := match s.toList with
    | '\ufeff' :: cs => cs
    | cs => cs
  (statements? (cs.length + 1) (joinLineEnds cs)).bind ofStatements?

end Transcode.Toml
