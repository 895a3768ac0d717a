import Transcode.Number.Integer
import Transcode.Text.Blank
import Transcode.Text.Hex

/-!
# Text shown in quotes

A text in double quotes in which everything that would not be seen as itself is escaped: quotes and
backslashes, control characters, blanks other than the space, and characters that direct or modify
their neighbours.
-/

namespace Transcode.Text

/-- Ranges of characters that have no shape of their own: marks that combine with the character
before them, characters that direct the layout, and code points that no character has. -/
def unseenRanges : List (Nat × Nat) := [
  (0x00, 0x1F), (0x7F, 0x9F), (0xAD, 0xAD), (0x300, 0x36F), (0x483, 0x489), (0x591, 0x5BD),
  (0x5BF, 0x5BF), (0x5C1, 0x5C2), (0x5C4, 0x5C5), (0x5C7, 0x5C7), (0x600, 0x605), (0x610, 0x61A),
  (0x61C, 0x61C), (0x64B, 0x65F), (0x670, 0x670), (0x6D6, 0x6DD), (0x6DF, 0x6E4), (0x6E7, 0x6E8),
  (0x6EA, 0x6ED), (0x70F, 0x70F), (0x711, 0x711), (0x730, 0x74A), (0x890, 0x891), (0x8CA, 0x902),
  (0x93A, 0x93A), (0x93C, 0x93C), (0x941, 0x948), (0x94D, 0x94D), (0xE31, 0xE31), (0xE34, 0xE3A),
  (0xE47, 0xE4E), (0x180B, 0x180F), (0x1AB0, 0x1ACE), (0x1DC0, 0x1DFF), (0x200B, 0x200F),
  (0x202A, 0x202E), (0x2060, 0x206F), (0x20D0, 0x20F0), (0x302A, 0x302F), (0x3099, 0x309A),
  (0xE000, 0xF8FF), (0xFE00, 0xFE0F), (0xFE20, 0xFE2F), (0xFEFF, 0xFEFF), (0xFF9E, 0xFF9F),
  (0xFFF0, 0xFFFB), (0xFFFE, 0xFFFF), (0x1D167, 0x1D169), (0x1D173, 0x1D182), (0x1FFFE, 0x1FFFF),
  (0x2FFFE, 0x2FFFF), (0x323B0, 0x10FFFF)]

/-- Whether a character is seen as itself. -/
def isSeen (c : Char) : Bool :=
  c == ' ' || !(isBlank c || unseenRanges.any fun r => r.1 ≤ c.toNat && c.toNat ≤ r.2)

/-- The hexadecimal digits of a number, without leading zeros. -/
def hexDigits (n : Nat) : List Char :=
  if n < 16 then [hexChar n] else hexDigits (n / 16) ++ [hexChar (n % 16)]
termination_by n

/-- A code point between braces, after a backslash. -/
def codePoint (c : Char) : List Char :=
  '\\' :: 'u' :: '\x7b' :: (hexDigits c.toNat ++ ['\x7d'])

/-- A character as it is shown in quotes. Of the two kinds of quotes those that are listed are
escaped. -/
def shownChar (quotes : List Char) (c : Char) : List Char :=
  if c = '\\' || quotes.contains c then ['\\', c]
  else if c = '\n' then ['\\', 'n']
  else if c = '\r' then ['\\', 'r']
  else if c = '\t' then ['\\', 't']
  else if c = '\x00' then ['\\', '0']
  else if isSeen c then [c]
  else codePoint c

def shown (s : String) : String :=
  "\"" ++ String.ofList (s.toList.flatMap (shownChar ['"'])) ++ "\""

/-- A file name as it is shown in quotes. Single quotes are escaped, too. -/
def shownName (s : String) : String :=
  "\"" ++ String.ofList (s.toList.flatMap (shownChar ['"', '\''])) ++ "\""

example : shown "a\"b\\\n" = "\"a\\\"b\\\\\\n\"" := by decide
example : shown "d\u00e9j\u00e0" = "\"d\u00e9j\u00e0\"" := by decide
example : shownChar [] '\u200b' = "\\u\x7b200b\x7d".toList := by cbv

end Transcode.Text
