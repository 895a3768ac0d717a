import Transcode.Proofs.Number.Integer

/-! # Decimal numbers and integers

An integer is a decimal number, too, and is read as the binary64 number nearest to it: a 64-bit integer
is far below the end of the format. -/

namespace Transcode.Number

/-! ## Rounding -/

namespace Binary64

theorem roundHalfEven_le (num den : Nat) : roundHalfEven num den ≤ num / den + 1 := by
  simp only [roundHalfEven]
  split
  · omega
  split
  · omega
  split <;> omega

theorem spacing_le (units : Nat) : spacing units ≤ units + 1 := by
  by_cases h : units = 0
  · subst h
    decide
  · have hpow : 2 ^ (units.log2 - 52) ≤ 2 ^ units.log2 :=
      Nat.pow_le_pow_right (by decide) (Nat.sub_le _ _)
    exact Nat.le_succ_of_le (hpow.trans (Nat.log2_self_le h))

/-- Rounding does not lead out of the format far below its end. -/
theorem exists_nearest? {units : Nat} (h : 2 * units + 1 < Nat.pow 2 2098) :
    ∃ rounded, nearest? units 1 = some rounded := by
  have hround := Nat.mul_le_mul_right (spacing units)
    (roundHalfEven_le units (1 * spacing units))
  have hdiv : (units / (1 * spacing units) + 1) * spacing units ≤ units + spacing units := by
    rw [Nat.one_mul, Nat.add_mul, Nat.one_mul]
    exact Nat.add_le_add_right (Nat.div_mul_le_self _ _) _
  have hdouble : roundHalfEven units (1 * spacing units) * spacing units ≤ 2 * units + 1 := by
    have := spacing_le units
    omega
  exact ⟨_, by rw [nearest?, Nat.div_one, if_pos (Nat.lt_of_le_of_lt hdouble h)]⟩

/-- A 64-bit integer has a nearest number. -/
theorem exists_nearest?_mul_one {n : Nat} (h : n ≤ Nat.pow 2 63) :
    ∃ rounded, nearest? (n * one) 1 = some rounded := by
  have hlimit : 2 * (Nat.pow 2 63 * one) + 1 < Nat.pow 2 2098 := by decide +kernel
  have hmul (unit : Nat) : 2 * (n * unit) + 1 ≤ 2 * (Nat.pow 2 63 * unit) + 1 := by
    have := Nat.mul_le_mul_right unit h
    omega
  exact exists_nearest? (Nat.lt_of_le_of_lt (hmul one) hlimit)

theorem nearestDecimal?_of_whole {n digitCount : Nat} (hn : n ≠ 0) (hcount : digitCount ≤ 19) :
    nearestDecimal? n digitCount 0 = nearest? (n * one) 1 := by
  have hpow : Nat.pow 10 (0 : Int).toNat = 1 := rfl
  rw [nearestDecimal?, if_neg hn, if_neg (by omega), if_neg (by omega), if_pos (Int.le_refl 0),
    hpow, Nat.mul_one]

end Binary64

/-! ## Reading -/

theorem Decimal.head_of_unsigned? {negative : Bool} {cs : List Char} {d : Decimal}
    (h : unsigned? negative cs = some d) :
    ∃ c rest, cs = c :: rest ∧ (isDigit c = true ∨ c = '.') := by
  cases cs with
  | nil => simp [unsigned?, spanDigits] at h
  | cons c rest =>
    refine ⟨c, rest, rfl, ?_⟩
    by_contra hc
    rw [not_or, Bool.not_eq_true] at hc
    simp [unsigned?, spanDigits, hc.1, hc.2] at h

/-- A decimal number does not start with a blank. -/
theorem Decimal.head_of_chars? {cs : List Char} {d : Decimal} (h : chars? cs = some d) :
    ∃ c rest, cs = c :: rest ∧ Text.isBlank c = false := by
  rw [chars?.eq_def] at h
  split at h
  · exact ⟨_, _, rfl, by decide⟩
  · exact ⟨_, _, rfl, by decide⟩
  · obtain ⟨c, rest, rfl, hc | rfl⟩ := head_of_unsigned? h
    · exact ⟨c, rest, rfl, isBlank_of_isDigit hc⟩
    · exact ⟨_, rest, rfl, by decide⟩

theorem natAbs_toInt_le (n : Int64) : n.toInt.natAbs ≤ Nat.pow 2 63 := by
  have hlow := n.le_toInt
  have hhigh := n.toInt_lt
  have hpow : Nat.pow 2 63 = 9223372036854775808 := rfl
  omega

theorem Decimal.chars?_integerChars (n : Int) :
    Decimal.chars? (integerChars n) = some (Decimal.whole (n < 0) n.natAbs) := by
  rw [integerChars]
  split
  · rename_i hneg
    simp [Decimal.chars?, Decimal.unsigned?_of_digits (digits?_decimal n.natAbs), hneg]
  · rename_i hneg
    obtain ⟨c, cs, hcs⟩ := List.exists_cons_of_ne_nil (decimal_ne_nil n.natAbs)
    have hc := decimal_head_isDigit hcs
    have hread : Decimal.unsigned? false (decimal n.natAbs) = some (Decimal.whole false n.natAbs) :=
      Decimal.unsigned?_of_digits (digits?_decimal n.natAbs)
    rw [hcs] at hread ⊢
    rw [Decimal.chars?]
    · simp [hread, hneg]
    · rintro _ ⟨rfl, rfl⟩
      exact absurd hc (by decide)
    · rintro _ ⟨rfl, rfl⟩
      exact absurd hc (by decide)

/-- The canonical form of an integer is read as the binary64 number nearest to it. -/
theorem finite?_intText (n : Int64) : finite? (intText n.toInt) = some (.ofInt64 n) := by
  have habs := natAbs_toInt_le n
  rw [finite?, intText, String.toList_ofList, Decimal.chars?_integerChars, Option.bind_some,
    Decimal.toBinary64?, Binary64.ofInt64]
  by_cases hzero : n.toInt.natAbs = 0
  · have hnearest : Binary64.nearest? (0 * Binary64.one) 1 = some 0 := by decide +kernel
    simp only [Decimal.whole, hzero, if_true, hnearest]
    rfl
  · have hlength : (decimal n.toInt.natAbs).length ≤ 19 :=
      decimal_length_le (by decide) (Nat.lt_of_le_of_lt habs (by decide))
    obtain ⟨units, hrounded⟩ := Binary64.exists_nearest?_mul_one habs
    simp only [Decimal.whole, hzero, if_false, Binary64.nearestDecimal?_of_whole hzero hlength,
      hrounded]
    rfl

end Transcode.Number
