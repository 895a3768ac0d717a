import Transcode.Proofs.Editor.Refusal
import Transcode.Proofs.Editor.Visits
import Transcode.Proofs.Plan.Carried
import Transcode.Proofs.Plan.Faults
import Transcode.Proofs.Validation.Accepted

/-! # Integers from a line to a command

What a line denotes is decided by its digits, however many there are. If it is an integer that a
parameter takes, this integer is stored, and its canonical form stands in the command with the unit of
the parameter. -/

namespace Transcode

open Number
open Text (trim isBlankLine)

/-! ## Lines that denote integers -/

namespace Number.IsNumeral

variable {line : String} {n : Int} (h : IsNumeral (trim line).toList n)

include h

theorem isBlankLine : isBlankLine line = false := by
  rw [← Bool.not_eq_true, Text.isBlankLine_iff]
  intro hempty
  rw [hempty, ← integer?_eq_some_iff] at h
  cases h

/-- No integer is taken for a word that leaves a parameter alone: such words have a letter. -/
theorem isResetWord : Editor.isResetWord line = false := by
  have hletter : 'r' ∉ Text.foldCase (trim line) := by
    intro hmem
    obtain ⟨c, hc, hlower⟩ := List.mem_map.mp hmem
    rcases mem_of_integer? (integer?_eq_some_iff.mpr h) hc with rfl | rfl | hdigit
    · exact absurd hlower (by decide)
    · exact absurd hlower (by decide)
    · rw [toLower_of_isDigit hdigit] at hlower
      rw [hlower] at hdigit
      exact absurd hdigit (by decide)
  have hother {word : String} (hword : 'r' ∈ Text.foldCase word) :
      Text.sameFolded (trim line) word = false := by
    rw [← Bool.not_eq_true, Text.sameFolded_iff]
    intro hsame
    rw [← hsame] at hword
    exact hletter hword
  rw [Editor.isResetWord, hother (by decide), hother (by decide), Bool.or_false]

end Number.IsNumeral

/-! ## The question for an integer -/

namespace Editor

variable {p : Profile}

/-- What a line makes of the settings if it leads from the question for an integer back to the menu. -/
inductive IntegerTaken (q : Parameter) (min max : Int64) (line : String) (s : Settings) :
    Settings → Prop where
  | kept (blank : isBlankLine line = true) : IntegerTaken q min max line s s
  | reset (reset : IsReset q line) : IntegerTaken q min max line s (s.insert q.key .dontChange)
  | stored {w : Int64} (denoted : IsNumeral (trim line).toList w.toInt)
      (inside : min.toInt ≤ w.toInt ∧ w.toInt ≤ max.toInt) :
      IntegerTaken q min max line s (s.insert q.key (.int w))

theorem not_isReset_of_isNumeral {line : String} {n : Int} (h : IsNumeral (trim line).toList n)
    (q : Parameter) : ¬ IsReset q line := by
  intro hreset
  exact absurd hreset.2 (by simp [h.isResetWord])

/-- An integer between the bounds is stored, however it is spelled. -/
theorem answer_integer {s : Settings} {i : Fin p.parameters.length} {min max w : Int64} {line : String}
    (hdenoted : IsNumeral (trim line).toList w.toInt)
    (hinside : min.toInt ≤ w.toInt ∧ w.toInt ≤ max.toInt) :
    answer ⟨.direct i (.int min max), s⟩ (some line) = store s (p.parameters.get i).key (.int w) := by
  have hown := not_isReset_of_isNumeral hdenoted (p.parameters.get i)
  have hchecked : checkInput (.int min max) line = .ok () :=
    checkInput_int_eq_ok_iff.mpr ⟨w, hdenoted, hinside⟩
  have hstored : Setting.ofInput line = .int w := by
    rw [Setting.ofInput, int64?_eq_some_iff.mpr hdenoted]
  rw [answer_direct_of_checkInput hdenoted.isBlankLine hown, hchecked, hstored]

/-- Nothing leads back to the menu but a blank line, a word that leaves the parameter alone, and an
integer between the bounds. -/
theorem next_integer_iff {s s' : Settings} {i : Fin p.parameters.length} {min max : Int64}
    {line : String} :
    (answer ⟨.direct i (.int min max), s⟩ (some line)).next = .ask ⟨.menu, s'⟩ ↔
      IntegerTaken (p.parameters.get i) min max line s s' := by
  constructor
  · intro h
    by_cases hblank : isBlankLine line = true
    · rw [answer_direct_of_isBlankLine hblank] at h
      cases h
      exact .kept hblank
    by_cases hreset : IsReset (p.parameters.get i) line
    · rw [answer_direct_of_isReset hreset] at h
      cases h
      exact .reset hreset
    cases hchecked : checkInput (.int min max) line with
    | ok =>
      obtain ⟨w, hdenoted, hinside⟩ := checkInput_int_eq_ok_iff.mp hchecked
      rw [answer_integer hdenoted hinside] at h
      cases h
      exact .stored hdenoted hinside
    | error fault =>
      rw [answer_direct_of_checkInput (by simpa using hblank) hreset, hchecked] at h
      cases h
  · intro h
    cases h with
    | kept blank => rw [answer_direct_of_isBlankLine blank]; rfl
    | reset reset => rw [answer_direct_of_isReset reset]; rfl
    | stored denoted inside => rw [answer_integer denoted inside]; rfl

end Editor

/-! ## Integers in commands -/

theorem Profile.renders_int {p : Profile} {q : Parameter} (hq : q ∈ p.parameters) {s : Settings}
    {w : Int64} (hstored : s.get? q.key = some (.int w)) :
    p.Renders q s (intText w.toInt ++ q.unit.getD "") := by
  have hrenderable : s.renderable q.key = some (.int w) :=
    Settings.renderable_eq_some_iff.mpr ⟨hstored, by simp⟩
  have hrenders := renders_of_renderable hq hrenderable
  rwa [q.renderValue_eq] at hrenders

/-- Integers are read with no wrap: a line is judged by the integer that it denotes, of any number of
digits. In a session this integer is what is stored, and its canonical form is what is rendered. -/
theorem integer_denoted (min max : Int64) (line : String) :
    (∀ verdict, checkInput (.int min max) line = verdict ↔ IntegerVerdict min max line verdict) ∧
    ∀ (p : Profile) (i : Fin p.parameters.length) (s s₁ : Settings) (script : List String),
      ((Editor.dialogue p).feed (Editor.start p s) script).stand =
        .ask ⟨.direct i (.int min max), s₁⟩ →
      let q := p.parameters.get i
      (∀ s', (Editor.answer ⟨.direct i (.int min max), s₁⟩ (some line)).next = .ask ⟨.menu, s'⟩ ↔
        Editor.IntegerTaken q min max line s₁ s') ∧
      ∀ w : Int64, IsNumeral (trim line).toList w.toInt → min.toInt ≤ w.toInt ∧ w.toInt ≤ max.toInt →
        isBlankLine line = false ∧ ¬ Editor.IsReset q line ∧
        (∀ more, (Editor.edit p s (script ++ line :: more)).result =
          (Editor.edit p (s₁.insert q.key (.int w)) more).result) ∧
        ∀ s', s'.get? q.key = some (.int w) →
          p.Renders q s' (intText w.toInt ++ q.unit.getD "") := by
  refine ⟨fun verdict => checkInput_int_eq_iff, fun p i s s₁ script hstand => ?_⟩
  intro q
  refine ⟨fun s' => Editor.next_integer_iff, fun w hdenoted hinside => ?_⟩
  refine ⟨hdenoted.isBlankLine, Editor.not_isReset_of_isNumeral hdenoted q, fun more => ?_,
    fun s' hstored => ?_⟩
  · exact Editor.edit_append_cons hstand
      (Editor.next_integer_iff.mpr (.stored hdenoted hinside)) more
  · exact Profile.renders_int (List.get_mem p.parameters i) hstored

example : checkInput (.int 0 50) "18446744073709551646" =
    .error (.notANumber "18446744073709551646") := by
  decide +kernel

/-- A plus sign and leading zeros get lost on the way to the vendor's parameters. -/
theorem integer_denoted_av1 :
    let p := Builtin.av1
    let s := p.defaultSettings
    let s' := s.insert "film_grain" (.int 30)
    let line := "\u3000+0030 "
    ((Editor.dialogue p).feed (Editor.start p s) ["7"]).stand =
        .ask ⟨.direct ⟨6, by decide⟩ (.int 0 50), s⟩ ∧
      IsNumeral (trim line).toList 30 ∧ checkInput (.int 0 50) line = .ok () ∧
      (Editor.edit p s ["7", line, ""]).result = (Editor.edit p s' [""]).result ∧
      ∃ plan c, p.plan s' (.ofString "a.mov") (.ofString "out") = .ok plan ∧
        plan.commands.getLast? = some c ∧
        p.Carries ["film-grain=30"] c.arguments .vendorSpecialOption := by
  intro p s s' line
  have hstand : ((Editor.dialogue p).feed (Editor.start p s) ["7"]).stand =
      .ask ⟨.direct ⟨6, by decide⟩ (.int 0 50), s⟩ := rfl
  have hdenoted : IsNumeral (trim line).toList (30 : Int64).toInt :=
    int64?_eq_some_iff.mp (by decide +kernel)
  have hinside : (0 : Int64).toInt ≤ (30 : Int64).toInt ∧ (30 : Int64).toInt ≤ (50 : Int64).toInt := by
    decide
  let q := p.parameters.get ⟨6, by decide⟩
  have hwords : q.arrange (intText (30 : Int64).toInt ++ q.unit.getD "") = ["film-grain=30"] := by
    decide +kernel
  have hp : p.fault? = none := Registry.fault?_builtin (by simp [builtinProfiles, p])
  obtain ⟨plan, hplan⟩ : ∃ plan, p.plan s' (.ofString "a.mov") (.ofString "out") = .ok plan :=
    exists_ok_of_isOk (by decide +kernel)
  obtain ⟨hverdict, hsessions⟩ := integer_denoted 0 50 line
  obtain ⟨-, -, hsession, hrenders⟩ := (hsessions _ _ _ _ _ hstand).2 30 hdenoted hinside
  obtain ⟨c, hlast, hcarried⟩ := (hrenders s' (by decide +kernel)).carried hp _ _ _ hplan
    (by decide) (by intro hscale; cases hscale)
  rw [hwords] at hcarried
  exact ⟨hstand, hdenoted, (hverdict _).mpr (.accepted hdenoted hinside), hsession [""], plan, c,
    hplan, hlast, hcarried⟩

end Transcode
