/-!
# Blank characters

A character is blank when Unicode gives it the property `White_Space`. Trimming removes the blank
characters at both ends of a text and nothing else.
-/

namespace Transcode.Text

/-- The characters with the Unicode property `White_Space`. -/
def isBlank (c : Char) : Bool :=
  let n := c.toNat
  (9 ≤ n && n ≤ 13) || n == 0x20 || n == 0x85 || n == 0xA0 || n == 0x1680 ||
    (0x2000 ≤ n && n ≤ 0x200A) || n == 0x2028 || n == 0x2029 || n == 0x202F || n == 0x205F ||
    n == 0x3000

/-- The characters between the first and the last that are not blank. -/
def trimChars (cs : List Char) : List Char :=
  ((cs.dropWhile isBlank).reverse.dropWhile isBlank).reverse

/-- A text without the blank characters at its ends. -/
def trim (s : String) : String :=
  String.ofList (trimChars s.toList)

/-- A line that holds blank characters only, or none. -/
def isBlankLine (s : String) : Bool :=
  s.toList.all isBlank

example : trim "\u3000 a b\u0085" = "a b" := by decide
example : trim "\u200b1" = "\u200b1" := by decide

theorem dropWhile_eq_nil_iff_all {p : Char → Bool} {cs : List Char} :
    cs.dropWhile p = [] ↔ cs.all p = true := by
  induction cs with
  | nil => simp
  | cons c cs ih =>
    cases hp : p c <;> simp [hp, ih]

/-- Trimming leaves nothing exactly when the line is blank. -/
theorem trimChars_eq_nil_iff {cs : List Char} : trimChars cs = [] ↔ cs.all isBlank = true := by
  constructor
  · intro h
    have h₁ := List.reverse_eq_nil_iff.mp h
    rw [dropWhile_eq_nil_iff_all] at h₁
    by_cases hd : cs.dropWhile isBlank = []
    · exact dropWhile_eq_nil_iff_all.mp hd
    · obtain ⟨c, rest, hc⟩ := List.exists_cons_of_ne_nil hd
      have hnot : isBlank c = false := by
        have := List.head_dropWhile_not (p := isBlank) (l := cs) (by simp [hc])
        simpa [hc] using this
      simp [hc, hnot] at h₁
  · intro h
    simp [trimChars, dropWhile_eq_nil_iff_all.mpr h]

end Transcode.Text
