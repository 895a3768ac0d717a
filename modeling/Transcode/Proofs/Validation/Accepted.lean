import Transcode.Proofs.Number.Integer
import Transcode.Proofs.Text.Blank
import Transcode.Validation.Stored

/-! # What the checks accept

Every range and every list of choices accepts the texts that denote one of its values, and no
others. -/

namespace Transcode

open Number

theorem checkTrimmed_oneOf_eq_ok_iff {values : List String} {value : String} :
    checkTrimmed (.oneOf values) value = .ok () ↔ value ∈ values := by
  by_cases h : value ∈ values <;> simp [checkTrimmed, Range.containsText, h]

theorem checkTrimmed_int_eq_ok_iff {min max : Int64} {value : String} :
    checkTrimmed (.int min max) value = .ok () ↔ ∃ n, int64? value = some n ∧
      min.toInt ≤ n.toInt ∧ n.toInt ≤ max.toInt := by
  rw [checkTrimmed]
  cases int64? value with
  | none => simp
  | some n =>
    by_cases hn : min.toInt ≤ n.toInt ∧ n.toInt ≤ max.toInt <;> simp [Range.containsInt, hn]

theorem checkInput_int_eq_ok_iff {min max : Int64} {line : String} :
    checkInput (.int min max) line = .ok () ↔ ∃ w : Int64,
      IsNumeral (Text.trim line).toList w.toInt ∧ min.toInt ≤ w.toInt ∧ w.toInt ≤ max.toInt := by
  rw [checkInput, checkTrimmed_int_eq_ok_iff]
  simp only [int64?_eq_some_iff]

/-- The verdict on a line for an integer between bounds. The integer that the line denotes may have any
number of digits. -/
inductive IntegerVerdict (min max : Int64) (line : String) : Except InputFault Unit → Prop where
  | accepted {n : Int} (denoted : IsNumeral (Text.trim line).toList n)
      (inside : min.toInt ≤ n ∧ n ≤ max.toInt) : IntegerVerdict min max line (.ok ())
  | notANumber (unfit : ∀ n, IsNumeral (Text.trim line).toList n → ¬ FitsInt64 n) :
      IntegerVerdict min max line (.error (.notANumber (Text.trim line)))
  | outOfRange {n : Int} (denoted : IsNumeral (Text.trim line).toList n) (fits : FitsInt64 n)
      (outside : ¬ (min.toInt ≤ n ∧ n ≤ max.toInt)) :
      IntegerVerdict min max line (.error (.outOfRange (Text.trim line) (Range.int min max).display))

theorem integerVerdict_checkInput (min max : Int64) (line : String) :
    IntegerVerdict min max line (checkInput (.int min max) line) := by
  rw [checkInput, checkTrimmed]
  cases hword : int64? (Text.trim line) with
  | none => exact .notANumber (int64?_eq_none_iff.mp hword)
  | some w =>
    have hdenoted := int64?_eq_some_iff.mp hword
    by_cases hinside : min.toInt ≤ w.toInt ∧ w.toInt ≤ max.toInt
    · simpa [Range.containsInt, hinside] using IntegerVerdict.accepted hdenoted hinside
    · simpa [Range.containsInt, hinside] using
        IntegerVerdict.outOfRange hdenoted (fitsInt64_toInt w) hinside

theorem IntegerVerdict.checkInput {min max : Int64} {line : String}
    {verdict : Except InputFault Unit} (h : IntegerVerdict min max line verdict) :
    checkInput (.int min max) line = verdict := by
  rw [Transcode.checkInput, checkTrimmed]
  cases h with
  | accepted denoted inside =>
    have hfits : FitsInt64 _ :=
      ⟨min.minValue_le_toInt.trans inside.1, inside.2.trans max.toInt_le⟩
    obtain ⟨w, rfl⟩ := hfits.exists_toInt_eq
    simp [int64?_eq_some_iff.mpr denoted, Range.containsInt, inside]
  | notANumber unfit => rw [int64?_eq_none_iff.mpr unfit]
  | outOfRange denoted fits outside =>
    obtain ⟨w, rfl⟩ := fits.exists_toInt_eq
    simp [int64?_eq_some_iff.mpr denoted, Range.containsInt, outside]

theorem checkInput_int_eq_iff {min max : Int64} {line : String} {verdict : Except InputFault Unit} :
    checkInput (.int min max) line = verdict ↔ IntegerVerdict min max line verdict := by
  refine ⟨?_, IntegerVerdict.checkInput⟩
  rintro rfl
  exact integerVerdict_checkInput min max line

theorem checkTrimmed_kbps_eq_ok_iff {min max : Int64} {value : String} :
    checkTrimmed (.kbps min max) value = .ok () ↔
      ∃ rate, bitRate? value = some rate ∧ (Range.kbps min max).containsRate rate = true := by
  rw [checkTrimmed]
  cases bitRate? value with
  | none => simp
  | some rate => by_cases hr : (Range.kbps min max).containsRate rate = true <;> simp [hr]

theorem checkTrimmed_float_eq_ok_iff {min max : Bound} {value : String} :
    checkTrimmed (.float min max) value = .ok () ↔
      (finite? value).map (Range.float min max).containsFloat = some true := by
  rw [checkTrimmed]
  cases finite? value with
  | none => simp
  | some x => by_cases hx : (Range.float min max).containsFloat x = true <;> simp [hx]

theorem checkValue_eq_ok_iff {choices : List Choice} {value : String} :
    checkValue choices value = .ok () ↔ ∃ c ∈ choices, c.value = value := by
  by_cases h : ∃ c ∈ choices, c.value = value
  · simp [checkValue, h]
  · simp [checkValue, h]

/-! ## Numbers of entries -/

/-- A line that spells the number of an entry of a list, counted from one. -/
structure Picks (count : Nat) (line : String) (m : Nat) : Prop where
  spelled : IsNatural (Text.trim line).toList m
  inside : 1 ≤ m ∧ m ≤ count
  /-- A number that is no word of 64 bits is not read. No list in memory has as many entries. -/
  word : m < Nat.pow 2 64

theorem picks_iff_of_lt {count : Nat} (h : count < Nat.pow 2 64) {line : String} {m : Nat} :
    Picks count line m ↔ IsNatural (Text.trim line).toList m ∧ 1 ≤ m ∧ m ≤ count := by
  constructor
  · intro hpicks
    exact ⟨hpicks.spelled, hpicks.inside⟩
  · rintro ⟨hspelled, hinside⟩
    exact ⟨hspelled, hinside, Nat.lt_of_le_of_lt hinside.2 h⟩

theorem choiceIndex?_eq_some_iff {line : String} {count i : Nat} :
    choiceIndex? line count = some i ↔ Picks count line (i + 1) := by
  rw [choiceIndex?]
  constructor
  · intro h
    split at h
    · rename_i n hword
      obtain ⟨hspelled, hfits⟩ := word?_eq_some_iff.mp hword
      split at h
      · rename_i hinside
        obtain rfl : n - 1 = i := Option.some.inj h
        have hsame := Nat.sub_add_cancel hinside.1
        rw [hsame]
        exact ⟨hspelled, hinside, hfits⟩
      · cases h
    · cases h
  · intro h
    rw [word?_eq_some_iff.mpr ⟨h.spelled, h.word⟩]
    exact if_pos h.inside

theorem choiceIndex?_eq_none_iff {line : String} {count : Nat} :
    choiceIndex? line count = none ↔ ∀ m, ¬ Picks count line m := by
  rw [Option.eq_none_iff_forall_ne_some]
  constructor
  · intro h m hpicks
    have hpos := hpicks.inside.1
    rw [← Nat.sub_add_cancel hpos] at hpicks
    exact h (m - 1) (choiceIndex?_eq_some_iff.mpr hpicks)
  · intro h i hi
    exact h (i + 1) (choiceIndex?_eq_some_iff.mp hi)

/-- Of the lines of a script, the first one that picks an entry. -/
theorem exists_first_pick (count : Nat) (script : List String) :
    (∀ line ∈ script, ∀ m, ¬ Picks count line m) ∨
      ∃ refused line unread m, script = refused ++ line :: unread ∧
        (∀ line ∈ refused, ∀ m, ¬ Picks count line m) ∧ Picks count line m := by
  induction script with
  | nil => exact .inl (by simp)
  | cons line rest ih =>
    by_cases hline : ∃ m, Picks count line m
    · obtain ⟨m, hm⟩ := hline
      exact .inr ⟨[], line, rest, m, rfl, by simp, hm⟩
    · rw [not_exists] at hline
      rcases ih with hall | ⟨refused, line', unread, m, rfl, hrefused, hm⟩
      · exact .inl (List.forall_mem_cons.mpr ⟨hline, hall⟩)
      · exact .inr ⟨line :: refused, line', unread, m, rfl,
          List.forall_mem_cons.mpr ⟨hline, hrefused⟩, hm⟩

end Transcode
