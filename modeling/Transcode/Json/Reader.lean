import Transcode.Json.Number
import Transcode.Text.Hex

/-!
# Reading JSON

The reader is strict: no comments, no trailing commas, no text after the value, no unescaped control
characters, no surrogate without its partner. Lists and objects nest at most 127 deep.
-/

namespace Transcode.Json

open Text (hexDigit?)

/-- Drops the blanks that may stand between tokens. -/
def skipBlanks (cs : List Char) : List Char :=
  cs.dropWhile fun c => c == ' ' || c == '\n' || c == '\t' || c == '\r'

def hex4? : List Char → Option (Nat × List Char)
  | a :: b :: c :: d :: rest => do
    let a ← hexDigit? a
    let b ← hexDigit? b
    let c ← hexDigit? c
    let d ← hexDigit? d
    return (a * 4096 + b * 256 + c * 16 + d, rest)
  | _ => none

/-- Reads what follows `\u`: a code point, or two surrogates that make one. -/
def unicodeEscape? (cs : List Char) : Option (Char × List Char) :=
  match hex4? cs with
  | none => none
  | some (n, rest) =>
    if 0xD800 ≤ n && n ≤ 0xDBFF then
      match rest with
      | '\\' :: 'u' :: more =>
        match hex4? more with
        | none => none
        | some (m, rest) =>
          if 0xDC00 ≤ m && m ≤ 0xDFFF then
            some (Char.ofNat (0x10000 + (n - 0xD800) * 0x400 + (m - 0xDC00)), rest)
          else none
      | _ => none
    else if 0xDC00 ≤ n && n ≤ 0xDFFF then none
    else some (Char.ofNat n, rest)

/-- The character that a letter stands for after a backslash. -/
def simpleEscape? : Char → Option Char
  | '"' => some '"'
  | '\\' => some '\\'
  | '/' => some '/'
  | 'b' => some '\x08'
  | 'f' => some '\x0c'
  | 'n' => some '\n'
  | 'r' => some '\r'
  | 't' => some '\t'
  | _ => none

def character? : List Char → Option (Char × List Char)
  | [] => none
  | '\\' :: 'u' :: cs => unicodeEscape? cs
  | '\\' :: c :: cs => (simpleEscape? c).map fun c => (c, cs)
  | c :: cs => if c.toNat < 0x20 || c == '\\' then none else some (c, cs)

theorem hex4?_length {cs rest : List Char} {n : Nat} (h : hex4? cs = some (n, rest)) :
    rest.length < cs.length := by
  match cs with
  | a :: b :: c :: d :: tail =>
    simp only [hex4?, Option.bind_eq_bind, Option.bind_eq_some_iff, Option.pure_def,
      Option.some.injEq, Prod.mk.injEq] at h
    obtain ⟨_, _, _, _, _, _, _, _, _, rfl⟩ := h
    simp only [List.length_cons]
    omega
  | [] | [_] | [_, _] | [_, _, _] => simp [hex4?] at h

theorem unicodeEscape?_length {cs rest : List Char} {c : Char}
    (h : unicodeEscape? cs = some (c, rest)) : rest.length < cs.length := by
  simp only [unicodeEscape?] at h
  split at h
  · cases h
  rename_i n tail hn
  have h₁ := hex4?_length hn
  split at h
  · split at h
    · split at h
      · cases h
      rename_i m tail' hm
      have h₂ := hex4?_length hm
      split at h
      · simp only [Option.some.injEq, Prod.mk.injEq] at h
        obtain ⟨_, rfl⟩ := h
        simp only [List.length_cons] at h₁
        omega
      · cases h
    · cases h
  split at h
  · cases h
  · simp only [Option.some.injEq, Prod.mk.injEq] at h
    obtain ⟨_, rfl⟩ := h
    exact h₁

/-- Reading a character uses up some of the text. -/
theorem character?_length {cs rest : List Char} {c : Char} (h : character? cs = some (c, rest)) :
    rest.length < cs.length := by
  unfold character? at h
  split at h
  · cases h
  · have := unicodeEscape?_length h
    simp only [List.length_cons]
    omega
  · simp only [Option.map_eq_some_iff, Prod.mk.injEq] at h
    obtain ⟨_, _, _, rfl⟩ := h
    simp only [List.length_cons]
    omega
  · split at h
    · cases h
    · simp only [Option.some.injEq, Prod.mk.injEq] at h
      obtain ⟨_, rfl⟩ := h
      simp

/-- Reads the rest of a string, up to and with the closing quote. -/
def string? (cs : List Char) : Option (List Char × List Char) :=
  match cs with
  | '"' :: rest => some ([], rest)
  | cs =>
    match h : character? cs with
    | none => none
    | some (c, rest) =>
      have : rest.length < cs.length := character?_length h
      (string? rest).map fun (cs, rest) => (c :: cs, rest)
termination_by cs.length

/-- Drops a word that the text starts with. -/
def word? : List Char → List Char → Option (List Char)
  | [], cs => some cs
  | w :: ws, c :: cs => if w == c then word? ws cs else none
  | _ :: _, [] => none

mutual

/-- Reads a value. The first argument bounds the number of nested calls, the second the number of
lists and objects that may still open. -/
def value? : Nat → Nat → List Char → Option (Json × List Char)
  | 0, _, _ => none
  | calls + 1, depth, cs =>
    match skipBlanks cs with
    | '"' :: rest => (string? rest).map fun (s, rest) => (.text (String.ofList s), rest)
    | 'n' :: rest => (word? "ull".toList rest).map fun rest => (.null, rest)
    | 't' :: rest => (word? "rue".toList rest).map fun rest => (.bool true, rest)
    | 'f' :: rest => (word? "alse".toList rest).map fun rest => (.bool false, rest)
    | '[' :: rest =>
      if depth = 0 then none
      else match skipBlanks rest with
        | ']' :: rest => some (.list [], rest)
        | rest => (items? calls (depth - 1) rest).map fun (vs, rest) => (.list vs, rest)
    | '{' :: rest =>
      if depth = 0 then none
      else match skipBlanks rest with
        | '}' :: rest => some (.object [], rest)
        | rest => (members? calls (depth - 1) rest).map fun (ms, rest) => (.object ms, rest)
    | rest =>
      match Numeral.read? rest with
      | none => none
      | some (n, rest) => n.value?.map fun v => (v, rest)

/-- Reads the items of a list, up to and with the closing bracket. -/
def items? : Nat → Nat → List Char → Option (List Json × List Char)
  | 0, _, _ => none
  | calls + 1, depth, cs =>
    match value? calls depth cs with
    | none => none
    | some (v, rest) =>
      match skipBlanks rest with
      | ',' :: rest => (items? calls depth rest).map fun (vs, rest) => (v :: vs, rest)
      | ']' :: rest => some ([v], rest)
      | _ => none

/-- Reads the members of an object, up to and with the closing brace. -/
def members? : Nat → Nat → List Char → Option (List (String × Json) × List Char)
  | 0, _, _ => none
  | calls + 1, depth, cs =>
    match skipBlanks cs with
    | '"' :: rest =>
      match string? rest with
      | none => none
      | some (key, rest) =>
        match skipBlanks rest with
        | ':' :: rest =>
          match value? calls depth rest with
          | none => none
          | some (v, rest) =>
            match skipBlanks rest with
            | ',' :: rest =>
              (members? calls depth rest).map fun (ms, rest) =>
                ((String.ofList key, v) :: ms, rest)
            | '}' :: rest => some ([(String.ofList key, v)], rest)
            | _ => none
        | _ => none
    | _ => none

end

/-- The deepest nesting of lists and objects that is read. -/
def maxDepth : Nat := 127

/-- Reads a text that holds one value and nothing else. Every call uses up a character or goes from
a bracket to its first item, so twice the length of the text bounds the calls. -/
def read? (s : String) : Option Json :=
  match value? (2 * s.length + 2) maxDepth s.toList with
  | none => none
  | some (v, rest) => if (skipBlanks rest).isEmpty then some v else none

end Transcode.Json
