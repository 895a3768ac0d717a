import Mathlib.Data.List.TakeWhile
import Transcode.Proofs.Number.Integer
import Transcode.Validation.Input

/-! # Picture sizes written and read

A picture size is read back from its written form exactly if it is one that can be read at all. -/

namespace Transcode

open Number

/-! ## Sizes -/

namespace Resolution

/-- What a side may be: a positive 32-bit number, or one of the two numbers that stand for the side
that follows from the other one. -/
def IsSide (n : Int) : Prop :=
  n ≤ Int32.maxValue.toInt ∧ (0 < n ∨ n = -1 ∨ n = -2)

/-- Both sides are in order, and at most one of them follows from the other. -/
structure IsValid (r : Resolution) : Prop where
  width : IsSide r.width
  height : IsSide r.height
  given : 0 < r.width ∨ 0 < r.height

/-- A size made of one given number that is too large for a side. -/
def IsOversized (n : Nat) (r : Resolution) : Prop :=
  Int32.maxValue.toInt < n ∧ (r = ⟨-1, n⟩ ∨ r = ⟨n, -1⟩)

theorem IsOversized.exists_not_isSide {n : Nat} {r : Resolution} (h : r.IsOversized n) :
    ¬ IsSide r.width ∨ ¬ IsSide r.height := by
  obtain ⟨hlow, hr⟩ := h
  have hside : ¬ IsSide n := fun hside => Int.not_le.mpr hlow hside.1
  rcases hr with rfl | rfl
  · exact .inr hside
  · exact .inl hside

/-- One given side makes a size, unless it is too large for one. -/
theorem isValid_or_isOversized {n : Nat} (hpos : 0 < n) {r : Resolution}
    (hr : r = ⟨-1, n⟩ ∨ r = ⟨n, -1⟩) : r.IsValid ∨ r.IsOversized n := by
  by_cases hmax : (n : Int) ≤ Int32.maxValue.toInt
  · left
    have hgiven : IsSide n := ⟨hmax, .inl (by omega)⟩
    have hderived : IsSide (-1) := ⟨by decide, .inr (.inl rfl)⟩
    rcases hr with rfl | rfl
    · exact ⟨hderived, hgiven, .inr (by simpa using hpos)⟩
    · exact ⟨hgiven, hderived, .inl (by simpa using hpos)⟩
  · exact .inr ⟨Int.not_le.mp hmax, hr⟩

/-! ## Written forms -/

theorem toList_display (r : Resolution) :
    r.display.toList = integerChars r.width ++ ':' :: integerChars r.height := by
  simp [display, intText]

theorem isBlank_of_mem_display {r : Resolution} {c : Char} (hc : c ∈ r.display.toList) :
    Text.isBlank c = false := by
  rw [toList_display, List.mem_append, List.mem_cons] at hc
  rcases hc with hc | rfl | hc
  · exact isBlank_of_mem_integerChars hc
  · decide
  · exact isBlank_of_mem_integerChars hc

theorem trim_display (r : Resolution) : Text.trim r.display = r.display :=
  Text.trim_eq_self fun _ => isBlank_of_mem_display

theorem colon_notMem_integerChars (n : Int) : ':' ∉ integerChars n := by
  intro h
  rcases mem_integerChars h with h | h
  · exact absurd h (by decide)
  · exact absurd h (by decide)

end Resolution

/-! ## Reading -/

theorem side?_eq_some_iff {s : String} {n : Int} :
    side? s = some n ↔ integer? (Text.trim s) = some n ∧ Resolution.IsSide n := by
  have hmin : Int32.minValue.toInt = -2147483648 := rfl
  simp only [side?, int32?, Option.filter_eq_some_iff, Resolution.IsSide, Bool.and_eq_true,
    Bool.or_eq_true, decide_eq_true_eq, beq_iff_eq, and_assoc, hmin, and_congr_right_iff]
  omega

theorem side?_intText (n : Int) [Decidable (Resolution.IsSide n)] :
    side? (intText n) = if Resolution.IsSide n then some n else none := by
  by_cases h : Resolution.IsSide n
  · rw [if_pos h, side?_eq_some_iff, trim_intText]
    exact ⟨integer?_intText n, h⟩
  · rw [if_neg h, Option.eq_none_iff_forall_ne_some]
    intro m hm
    rw [side?_eq_some_iff, trim_intText, integer?_intText] at hm
    obtain ⟨heq, hside⟩ := hm
    exact h (Option.some.inj heq ▸ hside)

/-- The first colon divides a size into its sides. -/
theorem resolution?_append {width : String} (hwidth : ':' ∉ width.toList) (height : String) :
    resolution? (width ++ ":" ++ height) = (side? width).bind fun w =>
      (side? height).bind fun h => if w < 0 && h < 0 then none else some ⟨w, h⟩ := by
  have hbefore : ∀ c ∈ width.toList, (c != ':') = true := by
    intro c hc
    rw [bne_iff_ne]
    rintro rfl
    exact hwidth hc
  have hchars : (width ++ ":" ++ height).toList = width.toList ++ ':' :: height.toList := by simp
  have htake : (width.toList ++ ':' :: height.toList).takeWhile (· != ':') = width.toList := by
    rw [List.takeWhile_append_of_pos hbefore]
    simp
  have hdrop : (width.toList ++ ':' :: height.toList).dropWhile (· != ':') =
      ':' :: height.toList := by
    rw [List.dropWhile_append_of_pos hbefore]
    simp
  simp only [resolution?, hchars, htake, hdrop, String.ofList_toList]
  cases side? width <;> cases side? height <;> rfl

/-- Both sides of a written size are found. -/
theorem resolution?_display (r : Resolution) :
    resolution? r.display = (side? (intText r.width)).bind fun w =>
      (side? (intText r.height)).bind fun h =>
        if w < 0 && h < 0 then none else some ⟨w, h⟩ := by
  apply resolution?_append
  rw [intText, String.toList_ofList]
  exact Resolution.colon_notMem_integerChars r.width

theorem Resolution.IsValid.resolution?_display {r : Resolution} (h : r.IsValid) :
    resolution? r.display = some r := by
  classical
  have hgiven : ¬ (r.width < 0 ∧ r.height < 0) := by
    have := h.given
    omega
  rw [Transcode.resolution?_display, side?_intText, side?_intText, if_pos h.width, if_pos h.height]
  simpa using hgiven

theorem resolution?_display_of_not_isSide {r : Resolution}
    (h : ¬ Resolution.IsSide r.width ∨ ¬ Resolution.IsSide r.height) :
    resolution? r.display = none := by
  classical
  rw [resolution?_display, side?_intText, side?_intText]
  rcases h with h | h
  · rw [if_neg h, Option.bind_none]
  · simp [if_neg h]

/-- What is read is two sides around the first colon, at most one of them negative. -/
theorem resolution?_eq_some_iff {s : String} {r : Resolution} :
    resolution? s = some r ↔ ∃ width height, s = width ++ ":" ++ height ∧ ':' ∉ width.toList ∧
      side? width = some r.width ∧ side? height = some r.height ∧
      ¬ (r.width < 0 ∧ r.height < 0) := by
  constructor
  · intro h
    have hsplit := List.takeWhile_append_dropWhile (p := (· != ':')) (l := s.toList)
    have hhead := List.head?_dropWhile_not (· != ':') s.toList
    simp only [resolution?] at h
    split at h
    · cases h
    rename_i colon height hdrop
    rw [hdrop] at hsplit hhead
    obtain rfl : colon = ':' := by simpa using hhead
    have hs : s = String.ofList (s.toList.takeWhile (· != ':')) ++ ":" ++ String.ofList height := by
      rw [← String.toList_inj]
      simpa using hsplit.symm
    have hbefore : ':' ∉ (String.ofList (s.toList.takeWhile (· != ':'))).toList := by
      rw [String.toList_ofList]
      intro hmem
      simpa using List.mem_takeWhile_imp hmem
    split at h
    · rename_i w h' hw hh
      split at h
      · cases h
      · rename_i hneg
        obtain rfl := Option.some.inj h
        exact ⟨_, _, hs, hbefore, hw, hh, by simpa using hneg⟩
    · cases h
  · rintro ⟨width, height, rfl, hwidth, hw, hh, hneg⟩
    rw [resolution?_append hwidth, hw, hh]
    simpa using hneg

/-- What is read is a valid size. -/
theorem isValid_of_resolution?_eq_some {s : String} {r : Resolution}
    (h : resolution? s = some r) : r.IsValid := by
  obtain ⟨width, height, -, -, hw, hh, hneg⟩ := resolution?_eq_some_iff.mp h
  have hwidth := (side?_eq_some_iff.mp hw).2
  have hheight := (side?_eq_some_iff.mp hh).2
  refine ⟨hwidth, hheight, ?_⟩
  have hwpos := hwidth.2
  have hhpos := hheight.2
  omega

theorem checkResolution_eq_ok_iff {line : String} {r : Resolution} :
    checkResolution line = .ok r ↔ resolution? (Text.trim line) = some r := by
  rw [checkResolution]
  cases resolution? (Text.trim line) <;> simp

theorem checkDimension_eq_ok_iff {line : String} {n : Nat} :
    checkDimension line = .ok n ↔ word? 32 (Text.trim line) = some n ∧ 0 < n := by
  rw [checkDimension]
  cases word? 32 (Text.trim line) with
  | none => simp
  | some m =>
    by_cases hm : 0 < m
    · simp only [hm, if_true, Except.ok.injEq, Option.some.injEq]
      constructor
      · rintro rfl
        exact ⟨rfl, hm⟩
      · exact And.left
    · simp only [hm, if_false, reduceCtorEq, Option.some.injEq, false_iff]
      rintro ⟨rfl, hpos⟩
      exact hm hpos

/-- A line spells a size if the first colon stands between its sides. There may be blanks around the
line and around both sides. -/
def Resolution.IsSpelledBy (r : Resolution) (line : String) : Prop :=
  ∃ width height : String, Text.trim line = width ++ ":" ++ height ∧ ':' ∉ width.toList ∧
    IsNumeral (Text.trim width).toList r.width ∧ IsNumeral (Text.trim height).toList r.height ∧
    r.IsValid

theorem Resolution.isSpelledBy_iff {r : Resolution} {line : String} :
    r.IsSpelledBy line ↔ checkResolution line = .ok r := by
  rw [checkResolution_eq_ok_iff]
  constructor
  · rintro ⟨width, height, hline, hfirst, hw, hh, hvalid⟩
    have hneg : ¬ (r.width < 0 ∧ r.height < 0) := by
      have := hvalid.given
      omega
    exact resolution?_eq_some_iff.mpr ⟨width, height, hline, hfirst,
      side?_eq_some_iff.mpr ⟨integer?_eq_some_iff.mpr hw, hvalid.width⟩,
      side?_eq_some_iff.mpr ⟨integer?_eq_some_iff.mpr hh, hvalid.height⟩, hneg⟩
  · intro h
    obtain ⟨width, height, hline, hfirst, hw, hh, -⟩ := resolution?_eq_some_iff.mp h
    exact ⟨width, height, hline, hfirst, integer?_eq_some_iff.mp (side?_eq_some_iff.mp hw).1,
      integer?_eq_some_iff.mp (side?_eq_some_iff.mp hh).1, isValid_of_resolution?_eq_some h⟩

theorem checkResolution_eq_error_iff {line : String} {fault : InputFault} :
    checkResolution line = .error fault ↔
      (∀ r : Resolution, ¬ r.IsSpelledBy line) ∧ fault = .invalidResolution (Text.trim line) := by
  simp only [Resolution.isSpelledBy_iff, checkResolution]
  cases resolution? (Text.trim line) <;> simp [eq_comm]

theorem Resolution.IsValid.checkResolution_display {r : Resolution} (h : r.IsValid) :
    checkResolution r.display = .ok r := by
  rw [checkResolution_eq_ok_iff, r.trim_display]
  exact h.resolution?_display

theorem Resolution.IsOversized.checkResolution_display {n : Nat} {r : Resolution}
    (h : r.IsOversized n) :
    checkResolution r.display = .error (.invalidResolution r.display) := by
  rw [checkResolution, r.trim_display, resolution?_display_of_not_isSide h.exists_not_isSide]

end Transcode
