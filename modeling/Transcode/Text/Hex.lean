/-!
# Hexadecimal digits

The digits above nine are the letters from `a` to `f`. They are read in both cases and written small.
-/

namespace Transcode.Text

def hexDigit? (c : Char) : Option Nat :=
  let n := c.toNat
  if 48 ≤ n && n ≤ 57 then some (n - 48)
  else if 65 ≤ n && n ≤ 70 then some (n - 55)
  else if 97 ≤ n && n ≤ 102 then some (n - 87)
  else none

/-- The hexadecimal digit of a number below sixteen. -/
def hexChar (n : Nat) : Char :=
  if n < 10 then Char.ofNat (48 + n) else Char.ofNat (87 + n)

theorem hexDigit?_hexChar {n : Nat} (h : n < 16) : hexDigit? (hexChar n) = some n := by
  have : ∀ m : Fin 16, hexDigit? (hexChar m) = some m.val := by decide
  exact this ⟨n, h⟩

end Transcode.Text
