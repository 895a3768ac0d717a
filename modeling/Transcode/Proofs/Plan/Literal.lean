import Transcode.Proofs.Plan.Carried
import Transcode.Proofs.Plan.Faults
import Transcode.Proofs.Validation.Resolution
import Transcode.Proofs.Validation.Stored
import Transcode.Proofs.Validation.Typed

/-! # Checked values in commands

A check looks at the text of a value without the blanks at its ends, and at the sides of a picture
size without the blanks around them, while a command carries the text as it is stored. So a checked
value stands in a command as one of its kind if its text has no such blanks. -/

namespace Transcode

open Number (intText IsNumeral)

/-! ## Written values -/

namespace Kind

/-- Texts that are a word, an integer, a choice or a picture size of a kind once their parts are
cleaned. -/
def IsWritten (k : Kind) (clean : String → String) (text : String) : Prop :=
  match k with
  | .direct (.oneOf values) => clean text ∈ values
  | .direct (.int min max) =>
    ∃ n, IsNumeral (clean text).toList n ∧ min.toInt ≤ n ∧ n ≤ max.toInt
  | .direct _ => True
  | .choice choices => ∃ c ∈ choices, c.value = text
  | .scale => ∃ (r : Resolution) (width height : String), r.IsValid ∧
      text = width ++ ":" ++ height ∧ IsNumeral (clean width).toList r.width ∧
      IsNumeral (clean height).toList r.height

/-- Texts without the blanks that the check of a kind overlooks. -/
def IsTidy (k : Kind) (text : String) : Prop :=
  match k with
  | .direct (.oneOf _) | .direct (.int _ _) => Text.trim text = text
  | .scale => ∀ c ∈ text.toList, Text.isBlank c = false
  | .direct _ | .choice _ => True

/-- Words have no blanks at their ends. -/
def HasTidyWords (k : Kind) : Prop :=
  ∀ values, k = .direct (.oneOf values) → ∀ word ∈ values, Text.trim word = word

/-- What a session stores for a typed line, or for a picture size that it has read. -/
def IsTyped (k : Kind) (v : Setting) : Prop :=
  match k with
  | .direct _ => ∃ line, v = .ofInput line
  | .choice _ => True
  | .scale => ∃ r : Resolution, v = .text r.display

variable {k : Kind} {text : String}

/-- Blanks around a picture size are blanks around its sides. -/
theorem isWritten_scale {r : Resolution} (h : resolution? (Text.trim text) = some r) :
    Kind.scale.IsWritten Text.trim text := by
  obtain ⟨width, height, htrim, -, hw, hh, -⟩ := resolution?_eq_some_iff.mp h
  obtain ⟨before, after, hbefore, hafter, htext⟩ := Text.exists_eq_append_trimChars text.toList
  have hnone : ([] : List Char).all Text.isBlank = true := rfl
  have hwidth : Text.trim (String.ofList before ++ width) = Text.trim width := by
    simpa [Text.trim] using congrArg String.ofList
      (Text.trimChars_append hbefore hnone width.toList)
  have hheight : Text.trim (height ++ String.ofList after) = Text.trim height := by
    simpa [Text.trim] using congrArg String.ofList
      (Text.trimChars_append hnone hafter height.toList)
  refine ⟨r, String.ofList before ++ width, height ++ String.ofList after,
    isValid_of_resolution?_eq_some h, ?_, ?_, ?_⟩
  · have hchars : Text.trimChars text.toList = width.toList ++ ':' :: height.toList := by
      simpa [Text.trim] using congrArg String.toList htrim
    rw [← String.toList_inj, htext, hchars]
    simp
  · rw [hwidth, ← Number.integer?_eq_some_iff]
    exact (side?_eq_some_iff.mp hw).1
  · rw [hheight, ← Number.integer?_eq_some_iff]
    exact (side?_eq_some_iff.mp hh).1

theorem isWritten_of_check (h : k.check text = .ok ()) : k.IsWritten Text.trim text := by
  cases k with
  | direct range =>
    cases range with
    | oneOf values => exact checkTrimmed_oneOf_eq_ok_iff.mp h
    | int min max =>
      obtain ⟨n, hn, hmin, hmax⟩ := checkTrimmed_int_eq_ok_iff.mp h
      exact ⟨n.toInt, Number.integer?_eq_some_iff.mp (Number.integer?_of_int64? hn), hmin, hmax⟩
    | float | kbps | any => trivial
  | choice choices => exact checkValue_eq_ok_iff.mp h
  | scale =>
    rw [check] at h
    cases hsize : checkResolution text with
    | error fault => simp [hsize, Except.map] at h
    | ok r => exact isWritten_scale (checkResolution_eq_ok_iff.mp hsize)

/-- Cleaning a text without blanks changes nothing. -/
theorem IsWritten.of_isTidy (h : k.IsWritten Text.trim text) (htidy : k.IsTidy text) :
    k.IsWritten id text := by
  cases k with
  | direct range =>
    cases range with
    | oneOf values =>
      have hword : Text.trim text ∈ values := h
      have htrim : Text.trim text = text := htidy
      rwa [htrim] at hword
    | int min max =>
      have htrim : Text.trim text = text := htidy
      obtain ⟨n, hn, hrange⟩ := h
      rw [htrim] at hn
      exact ⟨n, hn, hrange⟩
    | float | kbps | any => trivial
  | choice choices => exact h
  | scale =>
    obtain ⟨r, width, height, hr, rfl, hw, hh⟩ := h
    have hwidth : Text.trim width = width := Text.trim_eq_self fun c hc => htidy c (by simp [hc])
    have hheight : Text.trim height = height := Text.trim_eq_self fun c hc => htidy c (by simp [hc])
    rw [hwidth] at hw
    rw [hheight] at hh
    exact ⟨r, width, height, hr, rfl, hw, hh⟩

/-- Integers and picture sizes have no blanks. -/
theorem IsWritten.isTidy (h : k.IsWritten id text) (hwords : k.HasTidyWords) : k.IsTidy text := by
  cases k with
  | direct range =>
    cases range with
    | oneOf values => exact hwords values rfl text h
    | int min max =>
      obtain ⟨n, hn, -⟩ := h
      exact Text.trim_eq_self fun c hc => hn.isBlank_of_mem hc
    | float | kbps | any => trivial
  | choice choices => trivial
  | scale =>
    obtain ⟨r, width, height, -, rfl, hw, hh⟩ := h
    intro c hc
    simp only [String.toList_append, List.mem_append] at hc
    rcases hc with (hc | hc) | hc
    · exact hw.isBlank_of_mem hc
    · obtain rfl : c = ':' := by simpa using hc
      decide
    · exact hh.isBlank_of_mem hc

theorem IsTyped.isTidy {v : Setting} (h : k.IsTyped v) : k.IsTidy v.display := by
  cases k with
  | direct range =>
    obtain ⟨line, rfl⟩ := h
    cases range with
    | oneOf | int => exact Setting.trim_display_ofInput line
    | float | kbps | any => trivial
  | choice choices => trivial
  | scale =>
    obtain ⟨r, rfl⟩ := h
    exact fun c hc => Resolution.isBlank_of_mem_display hc

end Kind

/-! ## Rendered values -/

namespace Parameter

/-- Whether a value is followed by a unit in commands. -/
def AddsUnit (q : Parameter) (v : Setting) : Prop :=
  ∃ n unit, v = .int n ∧ q.unit = some unit

theorem renderValue_of_not_addsUnit {q : Parameter} {v : Setting} (h : ¬ q.AddsUnit v) :
    q.renderValue v = v.display := by
  cases v with
  | int n =>
    cases hunit : q.unit with
    | none => simp [renderValue, hunit]
    | some unit => exact absurd ⟨n, unit, rfl, hunit⟩ h
  | text | dontChange => simp [renderValue]

end Parameter

/-- What a command carries for a value that passed the check of its parameter. -/
structure Profile.RendersChecked (p : Profile) (q : Parameter) (s : Settings) (v : Setting)
    (text : String) : Prop where
  rendered : p.Renders q s text
  followed : ∀ n unit, v = .int n → q.unit = some unit → text = intText n.toInt ++ unit
  written : ¬ q.AddsUnit v → q.kind.IsWritten Text.trim text
  literal : ¬ q.AddsUnit v → q.kind.IsTidy text → q.kind.IsWritten id text
  tidy : q.kind.HasTidyWords → q.kind.IsWritten id text → q.kind.IsTidy text
  typed : ¬ q.AddsUnit v → q.kind.IsTyped v → q.kind.IsWritten id text

/-- A command carries a checked value as a word, an integer, a choice or a picture size of its kind and
with no other characters, if no unit is added to it, exactly if the stored text is free of the
blanks that the check overlooks. Choices always are, and so is what is typed in a session. -/
theorem rendersChecked_of_storedFaults {p : Profile} {s : Settings} {q : Parameter} {v : Setting}
    (hq : q ∈ p.parameters) (hv : s.renderable q.key = some v)
    (hok : ∀ fault ∈ p.storedFaults s, fault.key ≠ q.key) :
    ∃ text, p.RendersChecked q s v text := by
  have hwritten := Kind.isWritten_of_check (Profile.check_of_storedFaults hq hv hok)
  refine ⟨q.renderValue v, ?_⟩
  constructor
  case rendered => exact Profile.renders_of_renderable hq hv
  case followed =>
    rintro n unit rfl hunit
    simp [Parameter.renderValue, hunit]
  case written =>
    intro hunit
    rwa [Parameter.renderValue_of_not_addsUnit hunit]
  case literal =>
    intro hunit htidy
    rw [Parameter.renderValue_of_not_addsUnit hunit] at htidy ⊢
    exact hwritten.of_isTidy htidy
  case tidy => exact fun hwords h => h.isTidy hwords
  case typed =>
    intro hunit htyped
    rw [Parameter.renderValue_of_not_addsUnit hunit]
    exact hwritten.of_isTidy htyped.isTidy

/-- A blank that the check of a picture size overlooks stands in the command, within the filter that
the scale parameters follow. -/
theorem rendersChecked_of_storedFaults_vp9 :
    let p := Builtin.vp9
    let s : Settings := (p.defaultSettings.insert Key.scale (.text "-1: 720")).insert "scale_flags"
      (.text "lanczos")
    let front : List Argument := [.bare "-y", .bare "-i", .inQuotes "a.mov",
      .bare "-vf", .inQuotes "scale=-1: 720:flags=lanczos"]
    p.RendersChecked Builtin.scale s (.text "-1: 720") "-1: 720" ∧
      Kind.scale.IsWritten Text.trim "-1: 720" ∧
      ∃ plan c, p.plan s (.ofString "a.mov") (.ofString "out") = .ok plan ∧
        plan.commands.getLast? = some c ∧ c.arguments.take 5 = front ∧
        p.CarriesParameter Builtin.scale ["scale=-1: 720"] c.arguments := by
  intro p s front
  have hq : Builtin.scale ∈ p.parameters := by decide +kernel
  have hstored : s.renderable Key.scale = some (.text "-1: 720") := by decide +kernel
  have hfaults : p.storedFaults s = [] := by decide +kernel
  have hok : p.fault? = none := Registry.fault?_builtin (by simp [builtinProfiles, p])
  have hfront : (p.plan s (.ofString "a.mov") (.ofString "out")).map (fun plan =>
      plan.commands.getLast?.map (·.arguments.take 5)) = .ok (some front) := by decide +kernel
  have hwords : Builtin.scale.render? s = some (Builtin.scale.arrange "-1: 720") := by decide +kernel
  obtain ⟨plan, hplan⟩ := exists_ok_of_isOk
    (x := p.plan s (.ofString "a.mov") (.ofString "out")) (by decide +kernel)
  obtain ⟨text, hrenders⟩ := rendersChecked_of_storedFaults hq hstored (by simp [hfaults])
  obtain rfl : "-1: 720" = text := by
    have hsame : ["scale=" ++ "-1: 720"] = ["scale=" ++ text] :=
      Option.some.inj (hwords.symm.trans hrenders.rendered.words)
    exact String.append_right_inj "scale=" |>.mp (List.cons.inj hsame).1
  obtain ⟨c, hlast, hcarried⟩ := hrenders.rendered.carried hok _ _ _ hplan (by decide)
    (by intro hscale; cases hscale)
  rw [hplan, Except.map, hlast] at hfront
  exact ⟨hrenders, hrenders.written (by rintro ⟨n, unit, hv, -⟩; cases hv), plan, c, hplan, hlast,
    Option.some.inj (Except.ok.inj hfront), hcarried⟩

/-- It is not so that a checked value stands in a command with no other characters. -/
theorem not_isWritten_rendered :
    let s : Settings := Builtin.hevc.defaultSettings.insert Key.scale (.text "1280 : 720")
    Builtin.scale ∈ Builtin.hevc.parameters ∧ Builtin.hevc.storedFaults s = [] ∧
      Builtin.scale.render? s = some ["scale=1280 : 720"] ∧
      ¬ Builtin.scale.kind.IsWritten id "1280 : 720" := by
  intro s
  refine ⟨by decide +kernel, by decide +kernel, by decide +kernel, ?_⟩
  intro h
  have htidy := h.isTidy (by rintro values hkind; cases hkind)
  exact absurd (htidy ' ' (by decide)) (by decide)

end Transcode
