import Mathlib.Data.List.Induction
import Mathlib.Data.List.TakeWhile
import Mathlib.Data.Int.Order.Basic
import Transcode.Number.Decimal
import Transcode.Proofs.Text.Blank

/-! # Integers and the texts that denote them

Digits with an optional sign are read in two ways, as an integer and as a decimal number. Both
readings depend on nothing but the integer that is denoted. -/

namespace Transcode.Number

/-! ## Digits -/

theorem digits?_eq_some_iff {cs : List Char} {n : Nat} :
    digits? cs = some n ↔ cs ≠ [] ∧ (∀ c ∈ cs, isDigit c = true) ∧ digitsValue cs = n := by
  simp [digits?, and_assoc]

theorem isBlank_of_isDigit {c : Char} (h : isDigit c = true) : Text.isBlank c = false := by
  simp only [isDigit, Bool.and_eq_true, decide_eq_true_eq] at h
  simp only [Text.isBlank, Bool.or_eq_false_iff, Bool.and_eq_false_iff, decide_eq_false_iff_not,
    beq_eq_false_iff_ne]
  omega

theorem toLower_of_isDigit {c : Char} (h : isDigit c = true) : c.toLower = c := by
  simp only [isDigit, Bool.and_eq_true, decide_eq_true_eq] at h
  have hsmall : ¬ (65 ≤ c.toNat ∧ c.toNat ≤ 90) := by omega
  delta Char.toLower
  exact dif_neg hsmall

theorem digitChar_toNat_sub {c : Char} (h : isDigit c = true) : digitChar (c.toNat - 48) = c := by
  simp only [isDigit, Bool.and_eq_true, decide_eq_true_eq] at h
  rw [digitChar, Nat.add_sub_of_le h.1, Char.ofNat_toNat]

/-- Digits without their leading zeros are the canonical form of the number; of zero nothing is
left. -/
theorem dropWhile_zero_eq {cs : List Char} (h : ∀ c ∈ cs, isDigit c = true) :
    cs.dropWhile (· == '0') = if digitsValue cs = 0 then [] else decimal (digitsValue cs) := by
  induction cs using List.reverseRecOn with
  | nil => rfl
  | append_singleton cs c ih =>
    have hcs : ∀ c ∈ cs, isDigit c = true := fun d hd => h d (by simp [hd])
    have hc : isDigit c = true := h c (by simp)
    have hchar := digitChar_toNat_sub hc
    have hbounds := hc
    simp only [isDigit, Bool.and_eq_true, decide_eq_true_eq] at hbounds
    rw [List.dropWhile_append, ih hcs, digitsValue_append_one]
    by_cases hv : digitsValue cs = 0
    · by_cases hzero : c = '0'
      · subst hzero
        simp [hv]
      · have hpos : c.toNat - 48 ≠ 0 := by
          intro h0
          rw [h0] at hchar
          exact hzero hchar.symm
        have hlt : c.toNat - 48 < 10 := by omega
        simp [hv, hzero, hpos, decimal, hlt, hchar]
    · have hnz : ¬ digitsValue cs * 10 + (c.toNat - 48) = 0 := by omega
      have hge : ¬ digitsValue cs * 10 + (c.toNat - 48) < 10 := by omega
      have hdiv : (digitsValue cs * 10 + (c.toNat - 48)) / 10 = digitsValue cs := by omega
      have hmod : (digitsValue cs * 10 + (c.toNat - 48)) % 10 = c.toNat - 48 := by omega
      rw [if_neg hv, if_neg hnz]
      conv_rhs => rw [decimal, if_neg hge, hdiv, hmod, hchar]
      simp [decimal_ne_nil]

theorem decimal_length_le {n k : Nat} (hk : 0 < k) (h : n < Nat.pow 10 k) :
    (decimal n).length ≤ k := by
  induction k generalizing n with
  | zero => omega
  | succ k ih =>
    have hsucc : n < Nat.pow 10 k * 10 := h
    rw [decimal]
    split
    · simp
    · rename_i hlarge
      have hpos : 0 < k := by
        rcases Nat.eq_zero_or_pos k with rfl | hk
        · exact absurd hsucc hlarge
        · exact hk
      have hlength := ih hpos (show n / 10 < Nat.pow 10 k by omega)
      rw [List.length_append, List.length_singleton]
      omega

/-! ## Signs -/

theorem integerChars?_eq_some_iff {cs : List Char} {n : Int} :
    integerChars? cs = some n ↔ ∃ ds m, digits? ds = some m ∧
      (cs = ds ∧ n = m ∨ cs = '+' :: ds ∧ n = m ∨ cs = '-' :: ds ∧ n = -(m : Int)) := by
  constructor
  · intro h
    rw [integerChars?.eq_def] at h
    split at h
    · obtain ⟨m, hm, rfl⟩ := Option.map_eq_some_iff.mp h
      exact ⟨_, m, hm, .inr (.inr ⟨rfl, rfl⟩)⟩
    · obtain ⟨m, hm, rfl⟩ := Option.map_eq_some_iff.mp h
      exact ⟨_, m, hm, .inr (.inl ⟨rfl, rfl⟩)⟩
    · obtain ⟨m, hm, rfl⟩ := Option.map_eq_some_iff.mp h
      exact ⟨_, m, hm, .inl ⟨rfl, rfl⟩⟩
  · rintro ⟨ds, m, hm, ⟨rfl, rfl⟩ | ⟨rfl, rfl⟩ | ⟨rfl, rfl⟩⟩
    · obtain ⟨hne, hds, -⟩ := digits?_eq_some_iff.mp hm
      obtain ⟨c, ds, rfl⟩ := List.exists_cons_of_ne_nil hne
      rw [integerChars?_of_isDigit (hds c (by simp)), hm]
      rfl
    · simp [integerChars?, hm]
    · simp [integerChars?, hm]

/-- Digits with an optional sign, and the integer they denote. -/
inductive IsNumeral : List Char → Int → Prop
  | unsigned {ds : List Char} (hne : ds ≠ []) (hds : ∀ c ∈ ds, isDigit c = true) :
      IsNumeral ds (digitsValue ds)
  | plus {ds : List Char} (hne : ds ≠ []) (hds : ∀ c ∈ ds, isDigit c = true) :
      IsNumeral ('+' :: ds) (digitsValue ds)
  | minus {ds : List Char} (hne : ds ≠ []) (hds : ∀ c ∈ ds, isDigit c = true) :
      IsNumeral ('-' :: ds) (-(digitsValue ds : Int))

theorem integer?_eq_some_iff {s : String} {n : Int} :
    integer? s = some n ↔ IsNumeral s.toList n := by
  constructor
  · intro h
    obtain ⟨ds, m, hm, hcs⟩ := integerChars?_eq_some_iff.mp h
    obtain ⟨hne, hds, rfl⟩ := digits?_eq_some_iff.mp hm
    rcases hcs with ⟨hcs, rfl⟩ | ⟨hcs, rfl⟩ | ⟨hcs, rfl⟩ <;> rw [hcs]
    · exact .unsigned hne hds
    · exact .plus hne hds
    · exact .minus hne hds
  · intro h
    have hdigits {ds : List Char} (hne : ds ≠ []) (hds : ∀ c ∈ ds, isDigit c = true) :
        digits? ds = some (digitsValue ds) := digits?_eq_some_iff.mpr ⟨hne, hds, rfl⟩
    rw [integer?, integerChars?_eq_some_iff]
    generalize s.toList = cs at h
    cases h with
    | unsigned hne hds => exact ⟨_, _, hdigits hne hds, .inl ⟨rfl, rfl⟩⟩
    | plus hne hds => exact ⟨_, _, hdigits hne hds, .inr (.inl ⟨rfl, rfl⟩)⟩
    | minus hne hds => exact ⟨_, _, hdigits hne hds, .inr (.inr ⟨rfl, rfl⟩)⟩

/-- Digits with an optional plus sign, and the number they denote. -/
inductive IsNatural : List Char → Nat → Prop
  | unsigned {ds : List Char} (hne : ds ≠ []) (hds : ∀ c ∈ ds, isDigit c = true) :
      IsNatural ds (digitsValue ds)
  | plus {ds : List Char} (hne : ds ≠ []) (hds : ∀ c ∈ ds, isDigit c = true) :
      IsNatural ('+' :: ds) (digitsValue ds)

theorem natural?_eq_some_iff {s : String} {n : Nat} :
    natural? s = some n ↔ IsNatural s.toList n := by
  rw [natural?]
  generalize s.toList = cs
  constructor
  · intro h
    rw [naturalChars?.eq_def] at h
    split at h
    · obtain ⟨hne, hds, rfl⟩ := digits?_eq_some_iff.mp h
      exact .plus hne hds
    · obtain ⟨hne, hds, rfl⟩ := digits?_eq_some_iff.mp h
      exact .unsigned hne hds
  · intro h
    cases h with
    | unsigned hne hds =>
      obtain ⟨c, ds, rfl⟩ := List.exists_cons_of_ne_nil hne
      rw [naturalChars?_of_isDigit (hds c (by simp))]
      exact digits?_eq_some_iff.mpr ⟨hne, hds, rfl⟩
    | plus hne hds => exact digits?_eq_some_iff.mpr ⟨hne, hds, rfl⟩

theorem word?_eq_some_iff {width : Nat} {s : String} {n : Nat} :
    word? width s = some n ↔ IsNatural s.toList n ∧ n < Nat.pow 2 width := by
  rw [word?, Option.filter_eq_some_iff, natural?_eq_some_iff, decide_eq_true_eq]

theorem IsNumeral.isBlank_of_mem {cs : List Char} {n : Int} (h : IsNumeral cs n) {c : Char}
    (hc : c ∈ cs) : Text.isBlank c = false := by
  cases h with
  | unsigned _ hds => exact isBlank_of_isDigit (hds c hc)
  | plus _ hds | minus _ hds =>
    rcases List.mem_cons.mp hc with rfl | hc
    · decide
    · exact isBlank_of_isDigit (hds c hc)

/-- An integer is written with nothing but digits and a sign. -/
theorem mem_of_integer? {s : String} {n : Int} (h : integer? s = some n) {c : Char}
    (hc : c ∈ s.toList) : c = '+' ∨ c = '-' ∨ isDigit c = true := by
  obtain ⟨ds, m, hm, hcs⟩ := integerChars?_eq_some_iff.mp h
  obtain ⟨-, hds, -⟩ := digits?_eq_some_iff.mp hm
  rcases hcs with ⟨hcs, -⟩ | ⟨hcs, -⟩ | ⟨hcs, -⟩ <;> rw [hcs] at hc
  · exact .inr (.inr (hds c hc))
  · rcases List.mem_cons.mp hc with hc | hc
    · exact .inl hc
    · exact .inr (.inr (hds c hc))
  · rcases List.mem_cons.mp hc with hc | hc
    · exact .inr (.inl hc)
    · exact .inr (.inr (hds c hc))

theorem integer?_of_int64? {s : String} {n : Int64} (h : int64? s = some n) :
    integer? s = some n.toInt := by
  obtain ⟨m, hm, hword⟩ := Option.bind_eq_some_iff.mp h
  rw [hm, toInt_of_toInt64?_eq_some hword]

theorem int64?_eq_some_iff {s : String} {w : Int64} :
    int64? s = some w ↔ IsNumeral s.toList w.toInt := by
  rw [← integer?_eq_some_iff]
  refine ⟨integer?_of_int64?, fun h => ?_⟩
  rw [int64?, h, Option.bind_some, toInt64?_toInt]

/-- What a signed 64-bit word holds. -/
def FitsInt64 (n : Int) : Prop :=
  Int64.minValue.toInt ≤ n ∧ n ≤ Int64.maxValue.toInt

theorem fitsInt64_toInt (w : Int64) : FitsInt64 w.toInt :=
  ⟨w.minValue_le_toInt, w.toInt_le⟩

theorem FitsInt64.exists_toInt_eq {n : Int} (h : FitsInt64 n) : ∃ w : Int64, w.toInt = n :=
  ⟨.ofIntLE n h.1 h.2, Int64.toInt_ofIntLE⟩

/-- No word is read where no integer is denoted, or one that is too large or too small. -/
theorem int64?_eq_none_iff {s : String} :
    int64? s = none ↔ ∀ n, IsNumeral s.toList n → ¬ FitsInt64 n := by
  rw [Option.eq_none_iff_forall_ne_some]
  constructor
  · intro h n hn hfits
    obtain ⟨w, rfl⟩ := hfits.exists_toInt_eq
    exact h w (int64?_eq_some_iff.mpr hn)
  · intro h w hw
    exact h w.toInt (int64?_eq_some_iff.mp hw) (fitsInt64_toInt w)

theorem getLast?_isDigit {cs : List Char} {n : Int} (h : integerChars? cs = some n) :
    ∃ c, cs.getLast? = some c ∧ isDigit c = true := by
  obtain ⟨ds, m, hm, hcs⟩ := integerChars?_eq_some_iff.mp h
  obtain ⟨hne, hds, -⟩ := digits?_eq_some_iff.mp hm
  refine ⟨ds.getLast hne, ?_, hds _ (List.getLast_mem hne)⟩
  rcases hcs with ⟨rfl, -⟩ | ⟨rfl, -⟩ | ⟨rfl, -⟩ <;>
    simp [List.getLast?_cons, List.getLast?_eq_some_getLast hne]

theorem mem_integerChars {n : Int} {c : Char} (h : c ∈ integerChars n) :
    c = '-' ∨ isDigit c = true := by
  have hdigits : c ∈ decimal n.natAbs → isDigit c = true :=
    fun hc => List.all_eq_true.mp (all_isDigit_decimal n.natAbs) c hc
  simp only [integerChars] at h
  split at h
  · rcases List.mem_cons.mp h with h | h
    · exact .inl h
    · exact .inr (hdigits h)
  · exact .inr (hdigits h)

theorem isBlank_of_mem_integerChars {n : Int} {c : Char} (h : c ∈ integerChars n) :
    Text.isBlank c = false := by
  rcases mem_integerChars h with rfl | h
  · decide
  · exact isBlank_of_isDigit h

theorem intText_natCast (n : Nat) : intText n = natText n := by
  have hneg : ¬ (n : Int) < 0 := by omega
  rw [intText, integerChars, if_neg hneg, Int.natAbs_natCast, natText]

theorem trim_intText (n : Int) : Text.trim (intText n) = intText n := by
  apply Text.trim_eq_self
  intro c hc
  rw [intText, String.toList_ofList] at hc
  exact isBlank_of_mem_integerChars hc

/-! ## Integers as decimal numbers -/

/-- The decimal number of digits without a point. -/
def Decimal.whole (negative : Bool) (n : Nat) : Decimal :=
  ⟨negative, n, if n = 0 then 0 else (decimal n).length, 0⟩

theorem Decimal.unsigned?_of_digits {negative : Bool} {cs : List Char} {n : Nat}
    (h : digits? cs = some n) : unsigned? negative cs = some (whole negative n) := by
  obtain ⟨hne, hcs, rfl⟩ := digits?_eq_some_iff.mp h
  have htake : cs.takeWhile isDigit = cs := List.takeWhile_eq_self_iff.mpr hcs
  have hdrop : cs.dropWhile isDigit = [] := List.dropWhile_eq_nil_iff.mpr hcs
  have hcount := congrArg List.length (dropWhile_zero_eq hcs)
  simp only [unsigned?, spanDigits, htake, hdrop, List.append_nil, List.isEmpty_iff, hne, if_false,
    exponent?, Option.map_some, hcount, whole]
  by_cases hv : digitsValue cs = 0 <;> simp [hv]

theorem Decimal.chars?_of_integerChars? {cs : List Char} {n : Int}
    (h : integerChars? cs = some n) :
    ∃ negative, chars? cs = some (whole negative n.natAbs) ∧ (n < 0 → negative = true) ∧
      (0 < n → negative = false) := by
  obtain ⟨ds, m, hm, ⟨rfl, rfl⟩ | ⟨rfl, rfl⟩ | ⟨rfl, rfl⟩⟩ := integerChars?_eq_some_iff.mp h
  · obtain ⟨hne, hds, -⟩ := digits?_eq_some_iff.mp hm
    obtain ⟨c, ds, rfl⟩ := List.exists_cons_of_ne_nil hne
    have hc : isDigit c = true := hds c (by simp)
    refine ⟨false, ?_, by omega, fun _ => rfl⟩
    rw [chars?, unsigned?_of_digits hm]
    · rfl
    · rintro _ ⟨rfl, rfl⟩
      exact absurd hc (by decide)
    · rintro _ ⟨rfl, rfl⟩
      exact absurd hc (by decide)
  · exact ⟨false, by simp [chars?, unsigned?_of_digits hm], by omega, fun _ => rfl⟩
  · exact ⟨true, by simp [chars?, unsigned?_of_digits hm], fun _ => rfl, by omega⟩

/-- The value that is read for an integer depends on the integer only; a minus sign before a zero
does not count. -/
theorem finite?_map_value {s : String} {n : Int} (h : integer? s = some n) :
    (finite? s).map Binary64.value =
      (Binary64.nearestDecimal? n.natAbs (if n = 0 then 0 else (decimal n.natAbs).length) 0).map
        fun units : Nat => n.sign * (units : Int) := by
  obtain ⟨negative, hchars, hneg, hpos⟩ := Decimal.chars?_of_integerChars? h
  rw [finite?, hchars, Option.bind_some, Decimal.toBinary64?, Option.map_map]
  simp only [Decimal.whole, Int.natAbs_eq_zero]
  by_cases hzero : n = 0
  · subst hzero
    simp [Binary64.nearestDecimal?, Binary64.value]
  · apply congrArg (Option.map · _)
    funext units
    rcases lt_or_gt_of_ne hzero with hn | hn
    · simp [Binary64.value, hneg hn, Int.sign_eq_neg_one_of_neg hn]
    · simp [Binary64.value, hpos hn, Int.sign_eq_one_of_pos hn]

end Transcode.Number
