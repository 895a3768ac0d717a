import Transcode.Proofs.Validation.Accepted

/-! # Typed values once stored

An integer is stored as a number and shown in its canonical form, whatever it was typed like. Ranges
of numbers cannot tell the two apart; a range of words can, unless its words are canonical. -/

namespace Transcode

open Number

/-! ## Spellings of one integer -/

/-- An integer is no bit rate with a suffix: its last character is a digit. -/
theorem bitRate?_of_int64? {s : String} {n : Int64} (h : int64? s = some n) :
    bitRate? s = some (.kbps (.ofInt64 n)) := by
  obtain ⟨c, hlast, hdigit⟩ := getLast?_isDigit (integer?_of_int64? h)
  rw [bitRate?, hlast]
  split
  case h_4 => rw [h, Option.map_some]
  all_goals
    rename_i hsuffix
    exact absurd (Option.some.inj hsuffix ▸ hdigit) (by decide)

theorem Bound.le_congr {x y : Binary64} (h : x.value = y.value) (b : Bound) :
    b.le (.finite x) = b.le (.finite y) ∧ (finite x).le b = (finite y).le b := by
  cases b with
  | finite z => simp [le, Binary64.le, h]
  | infinite negative => cases negative <;> exact ⟨rfl, rfl⟩
  | undefined => exact ⟨rfl, rfl⟩

theorem Range.containsFloat_congr {x y : Binary64} (h : x.value = y.value) (r : Range) :
    r.containsFloat x = r.containsFloat y := by
  cases r with
  | float min max => rw [containsFloat, containsFloat, (min.le_congr h).1, (max.le_congr h).2]
  | int | kbps | oneOf | any => simp [containsFloat, Binary64.le, h]

/-- Two spellings of one integer are read as the same number, up to the sign of zero. -/
theorem finite?_map_containsFloat {s t : String} {n : Int64} (hs : int64? s = some n)
    (ht : int64? t = some n) (r : Range) :
    (finite? s).map r.containsFloat = (finite? t).map r.containsFloat := by
  have hvalue : (finite? s).map Binary64.value = (finite? t).map Binary64.value := by
    rw [finite?_map_value (integer?_of_int64? hs), finite?_map_value (integer?_of_int64? ht)]
  cases hx : finite? s with
  | none =>
    cases hy : finite? t with
    | none => rfl
    | some y => simp [hx, hy] at hvalue
  | some x =>
    cases hy : finite? t with
    | none => simp [hx, hy] at hvalue
    | some y =>
      rw [hx, hy, Option.map_some, Option.map_some, Option.some.injEq] at hvalue
      rw [Option.map_some, Option.map_some, r.containsFloat_congr hvalue]

/-! ## Canonical words -/

/-- Whether all words of a range that can be read as integers are canonical ones. -/
def Range.isCanonical : Range → Bool
  | .oneOf values => values.all fun v => (int64? v).all fun n => intText n.toInt == v
  | .int _ _ | .float _ _ | .kbps _ _ | .any => true

/-- Ranges of numbers accept all spellings of an integer or none. -/
theorem checkTrimmed_congr {r : Range} (hr : ∀ words, r ≠ .oneOf words) {s t : String} {n : Int64}
    (hs : int64? s = some n) (ht : int64? t = some n) :
    checkTrimmed r s = .ok () ↔ checkTrimmed r t = .ok () := by
  cases r with
  | any => exact .rfl
  | int min max => rw [checkTrimmed_int_eq_ok_iff, checkTrimmed_int_eq_ok_iff, hs, ht]
  | kbps min max =>
    rw [checkTrimmed_kbps_eq_ok_iff, checkTrimmed_kbps_eq_ok_iff, bitRate?_of_int64? hs,
      bitRate?_of_int64? ht]
  | float min max =>
    rw [checkTrimmed_float_eq_ok_iff, checkTrimmed_float_eq_ok_iff, finite?_map_containsFloat hs ht]
  | oneOf words => exact absurd rfl (hr words)

/-- The canonical form of an integer belongs to a range along with its other spellings. -/
theorem checkTrimmed_intText {r : Range} (hr : r.isCanonical = true) {value : String} {n : Int64}
    (hn : int64? value = some n) (h : checkTrimmed r value = .ok ()) :
    checkTrimmed r (intText n.toInt) = .ok () := by
  cases r with
  | oneOf values =>
    rw [checkTrimmed_oneOf_eq_ok_iff] at h ⊢
    have hcanonical : intText n.toInt = value := by
      have hall := List.all_eq_true.mp hr value h
      simpa [hn] using hall
    rwa [hcanonical]
  | any | int | kbps | float => exact (checkTrimmed_congr (by simp) hn (int64?_intText n)).mp h

theorem Setting.trim_display_ofInput (line : String) :
    Text.trim (ofInput line).display = (ofInput line).display := by
  rw [ofInput]
  split
  · exact trim_intText _
  · exact Text.trim_trim line

/-- What is accepted when it is typed is accepted again in the form in which it is stored. -/
theorem checkInput_display_ofInput {r : Range} (hr : r.isCanonical = true) {line : String}
    (h : checkInput r line = .ok ()) : checkInput r (Setting.ofInput line).display = .ok () := by
  rw [checkInput] at h
  rw [checkInput, Setting.ofInput]
  cases hn : int64? (Text.trim line) with
  | none =>
    rw [Setting.display_text, Text.trim_trim]
    exact h
  | some n =>
    rw [Setting.display_int, trim_intText]
    exact checkTrimmed_intText hr hn h

example : checkInput (.int 0 51) " +07 " = .ok () ∧ (Setting.ofInput " +07 ").display = "7" := by
  decide +kernel

/-- A range of numbers accepts the form in which a line is stored for no other lines than those that
it accepts. -/
theorem checkInput_of_display_ofInput {r : Range} (hr : ∀ words, r ≠ .oneOf words) {line : String}
    (h : checkInput r (Setting.ofInput line).display = .ok ()) : checkInput r line = .ok () := by
  rw [checkInput, Setting.ofInput] at h
  rw [checkInput]
  cases hn : int64? (Text.trim line) with
  | none => simpa [hn] using h
  | some n =>
    apply (checkTrimmed_congr hr hn (int64?_intText n)).mpr
    simpa [hn, trim_intText] using h

theorem Setting.ofInput_display_ofInput (line : String) :
    ofInput (ofInput line).display = ofInput line := by
  rw [ofInput, trim_display_ofInput, ofInput]
  cases hn : int64? (Text.trim line) with
  | none => simp [hn]
  | some n => simp

/-- A typed line is stored in a form that belongs to the same range, and storing that form again
changes nothing. No refused line is stored in a form that a range of numbers accepts. -/
theorem ofInput_stable {r : Range} (hr : r.isCanonical = true) (line : String) :
    (checkInput r line = .ok () → checkInput r (Setting.ofInput line).display = .ok ()) ∧
    ((∀ words, r ≠ .oneOf words) → checkInput r (Setting.ofInput line).display = .ok () →
      checkInput r line = .ok ()) ∧
    Setting.ofInput (Setting.ofInput line).display = Setting.ofInput line :=
  ⟨checkInput_display_ofInput hr, fun hnumbers => checkInput_of_display_ofInput hnumbers,
    Setting.ofInput_display_ofInput line⟩

/-- A negative zero belongs to a range that starts at zero. -/
theorem ofInput_stable_zero :
    let r := Range.float (.ofInt64 0) (.infinite false)
    r.isCanonical = true ∧ checkInput r " -00 " = .ok () ∧ (Setting.ofInput " -00 ").display = "0" ∧
      checkInput r "0" = .ok () := by
  intro r
  have hr : r.isCanonical = true := rfl
  have haccepted : checkInput r " -00 " = .ok () := by decide +kernel
  have hdisplay : (Setting.ofInput " -00 ").display = "0" := by decide +kernel
  refine ⟨hr, haccepted, hdisplay, ?_⟩
  have hstored := (ofInput_stable hr " -00 ").1 haccepted
  rwa [hdisplay] at hstored

end Transcode
