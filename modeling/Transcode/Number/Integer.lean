/-!
# Integers as text

An integer is written as an optional sign and at least one of the digits 0 to 9; the canonical form
has no plus sign and no leading zero. Reading a canonical form gives the integer back, so the words
of fixed width are read with no wrap: a text either denotes a word of the width or is refused.
-/

namespace Transcode.Number

/-- The digits 0 to 9. -/
def isDigit (c : Char) : Bool :=
  48 ≤ c.toNat && c.toNat ≤ 57

/-- The number that digits denote, the first digit being the most significant. -/
def digitsValue (cs : List Char) : Nat :=
  cs.foldl (fun n c => n * 10 + (c.toNat - 48)) 0

def digits? (cs : List Char) : Option Nat :=
  if !cs.isEmpty && cs.all isDigit then some (digitsValue cs) else none

/-- Reads digits with an optional sign. -/
def integerChars? : List Char → Option Int
  | '-' :: cs => (digits? cs).map fun n : Nat => -(n : Int)
  | '+' :: cs => (digits? cs).map Int.ofNat
  | cs => (digits? cs).map Int.ofNat

def integer? (s : String) : Option Int :=
  integerChars? s.toList

/-- Reads digits with an optional plus sign. -/
def naturalChars? : List Char → Option Nat
  | '+' :: cs => digits? cs
  | cs => digits? cs

/-- Reads a number without a minus sign. -/
def natural? (s : String) : Option Nat :=
  naturalChars? s.toList

/-- The 64-bit word of an integer that fits. -/
def toInt64? (n : Int) : Option Int64 :=
  if h : Int64.minValue.toInt ≤ n ∧ n ≤ Int64.maxValue.toInt then some (.ofIntLE n h.1 h.2)
  else none

/-- Reads an integer that fits a signed 64-bit word. -/
def int64? (s : String) : Option Int64 :=
  (integer? s).bind toInt64?

/-- Reads an integer that fits a signed 32-bit word. -/
def int32? (s : String) : Option Int :=
  (integer? s).filter fun n => Int32.minValue.toInt ≤ n && n ≤ Int32.maxValue.toInt

/-- Reads a number that fits an unsigned word of the given width. -/
def word? (width : Nat) (s : String) : Option Nat :=
  (natural? s).filter fun n => n < Nat.pow 2 width

def digitChar (n : Nat) : Char :=
  Char.ofNat (48 + n)

/-- The digits of a number, without leading zeros. -/
def decimal (n : Nat) : List Char :=
  if n < 10 then [digitChar n] else decimal (n / 10) ++ [digitChar (n % 10)]
termination_by n

def natText (n : Nat) : String :=
  String.ofList (decimal n)

def integerChars (n : Int) : List Char :=
  if n < 0 then '-' :: decimal n.natAbs else decimal n.natAbs

def intText (n : Int) : String :=
  String.ofList (integerChars n)

theorem toNat_digitChar {n : Nat} (h : n < 10) : (digitChar n).toNat = 48 + n := by
  have : n = 0 ∨ n = 1 ∨ n = 2 ∨ n = 3 ∨ n = 4 ∨ n = 5 ∨ n = 6 ∨ n = 7 ∨ n = 8 ∨ n = 9 := by
    omega
  rcases this with rfl | rfl | rfl | rfl | rfl | rfl | rfl | rfl | rfl | rfl <;> rfl

theorem isDigit_digitChar {n : Nat} (h : n < 10) : isDigit (digitChar n) = true := by
  simp only [isDigit, toNat_digitChar h, Bool.and_eq_true, decide_eq_true_eq]
  omega

theorem digitsValue_append_one (cs : List Char) (c : Char) :
    digitsValue (cs ++ [c]) = digitsValue cs * 10 + (c.toNat - 48) := by
  simp [digitsValue, List.foldl_append]

theorem decimal_ne_nil (n : Nat) : decimal n ≠ [] := by
  rw [decimal]
  split <;> simp

theorem all_isDigit_decimal (n : Nat) : (decimal n).all isDigit = true := by
  induction n using Nat.strongRecOn with
  | _ n ih =>
    rw [decimal]
    split
    · simp [isDigit_digitChar ‹n < 10›]
    · simp [ih (n / 10) (by omega), isDigit_digitChar (Nat.mod_lt n (by decide : 0 < 10))]

@[simp] theorem digitsValue_decimal (n : Nat) : digitsValue (decimal n) = n := by
  induction n using Nat.strongRecOn with
  | _ n ih =>
    rw [decimal]
    split
    · simp [digitsValue, toNat_digitChar ‹n < 10›]
    · rw [digitsValue_append_one, ih (n / 10) (by omega),
        toNat_digitChar (Nat.mod_lt n (by decide : 0 < 10))]
      omega

@[simp] theorem digits?_decimal (n : Nat) : digits? (decimal n) = some n := by
  simp [digits?, decimal_ne_nil, all_isDigit_decimal]

theorem decimal_head_isDigit {n : Nat} {c : Char} {cs : List Char} (h : decimal n = c :: cs) :
    isDigit c = true := by
  have := all_isDigit_decimal n
  simp only [h, List.all_cons, Bool.and_eq_true] at this
  exact this.1

theorem integerChars?_of_isDigit {c : Char} {cs : List Char} (h : isDigit c = true) :
    integerChars? (c :: cs) = (digits? (c :: cs)).map Int.ofNat := by
  rw [integerChars?]
  · rintro _ ⟨rfl, rfl⟩
    exact absurd h (by decide)
  · rintro _ ⟨rfl, rfl⟩
    exact absurd h (by decide)

theorem naturalChars?_of_isDigit {c : Char} {cs : List Char} (h : isDigit c = true) :
    naturalChars? (c :: cs) = digits? (c :: cs) := by
  rw [naturalChars?]
  rintro _ ⟨rfl, rfl⟩
  exact absurd h (by decide)

@[simp] theorem integerChars?_integerChars (n : Int) :
    integerChars? (integerChars n) = some n := by
  simp only [integerChars]
  split
  · rw [integerChars?, digits?_decimal, Option.map_some]
    congr 1
    omega
  · obtain ⟨c, cs, h⟩ := List.exists_cons_of_ne_nil (decimal_ne_nil n.natAbs)
    rw [h, integerChars?_of_isDigit (decimal_head_isDigit h), ← h, digits?_decimal]
    simp only [Option.map_some]
    congr 1
    simp only [Int.ofNat_eq_natCast]
    omega

@[simp] theorem integer?_intText (n : Int) : integer? (intText n) = some n := by
  simp [integer?, intText]

@[simp] theorem natural?_natText (n : Nat) : natural? (natText n) = some n := by
  obtain ⟨c, cs, h⟩ := List.exists_cons_of_ne_nil (decimal_ne_nil n)
  simp only [natural?, natText, String.toList_ofList]
  rw [h, naturalChars?_of_isDigit (decimal_head_isDigit h), ← h, digits?_decimal]

@[simp] theorem toInt64?_toInt (n : Int64) : toInt64? n.toInt = some n := by
  rw [toInt64?, dif_pos ⟨n.minValue_le_toInt, n.toInt_le⟩, Int64.ofIntLE_toInt]

theorem toInt_of_toInt64?_eq_some {n : Int} {w : Int64} (h : toInt64? n = some w) :
    w.toInt = n := by
  simp only [toInt64?] at h
  split at h
  · obtain rfl := Option.some.inj h
    exact Int64.toInt_ofIntLE
  · cases h

@[simp] theorem int64?_intText (n : Int64) : int64? (intText n.toInt) = some n := by
  simp [int64?]

example : integer? "+07" = some 7 ∧ integer? "-" = none ∧ integer? "" = none := by decide
example : int64? "9223372036854775808" = none ∧ word? 32 "-0" = none := by decide

end Transcode.Number
