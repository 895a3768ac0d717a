/-!
# Letter case

Names are compared without regard to the case of the letters A to Z; every other character stands
for itself.
-/

namespace Transcode.Text

def foldCase (s : String) : List Char :=
  s.toList.map Char.toLower

/-- Equality up to the case of the letters A to Z. -/
def sameFolded (s t : String) : Bool :=
  foldCase s == foldCase t

example : sameFolded "SVT-av1" "svt-AV1" = true := by decide
example : sameFolded "é" "É" = false := by decide

theorem sameFolded_iff {s t : String} : sameFolded s t = true ↔ foldCase s = foldCase t := by
  simp [sameFolded]

@[simp] theorem sameFolded_refl (s : String) : sameFolded s s = true := by
  simp [sameFolded]

theorem sameFolded_comm (s t : String) : sameFolded s t = sameFolded t s :=
  BEq.comm

/-- A small letter for every letter that has one in ASCII: A to Z, and the Kelvin sign, whose small
form is `k`. No other character has a small form in ASCII. -/
def smallLetter (c : Char) : Char :=
  if c == '\u212A' then 'k' else c.toLower

end Transcode.Text
