import Transcode.Proofs.Editor.Change
import Transcode.Proofs.Editor.Refusal
import Transcode.Proofs.Validation.Resolution

/-! # Picture sizes typed in full

A line that spells a picture size is read as that size, whatever the spelling. The size is stored in its
canonical form, which is read as the same size again. -/

namespace Transcode

open Number (intText)
open Text (isBlankLine)

/-- A size is spelled by a line that holds something. -/
theorem Resolution.IsSpelledBy.isBlankLine {r : Resolution} {line : String}
    (h : r.IsSpelledBy line) : isBlankLine line = false := by
  obtain ⟨width, height, hline, -⟩ := h
  rw [← Bool.not_eq_true, Text.isBlankLine_iff, hline]
  simp

namespace Editor

variable {p : Profile}

/-- What is answered to a size that is typed in full: the size is stored in its canonical form. -/
theorem answer_size_of_isSpelledBy (s : Settings) (i : Fin p.parameters.length) {line : String}
    {r : Resolution} (h : r.IsSpelledBy line) :
    answer ⟨.scale i .size, s⟩ (some line) = store s Key.scale (.text r.display) := by
  have hentered := entered?_of_not_blank h.isBlankLine
  have hread : readSize .size line = .ok r.display := by
    rw [readSize, Resolution.isSpelledBy_iff.mp h]
    rfl
  simp only [answer, answerSize, hentered, hread]

/-- Only a size that is typed in full leads back to the menu. -/
theorem next_size_iff {s s' : Settings} {i : Fin p.parameters.length} {line : String} :
    (answer ⟨.scale i .size, s⟩ (some line)).next = .ask ⟨.menu, s'⟩ ↔
      ∃ r : Resolution, r.IsSpelledBy line ∧ s' = s.insert Key.scale (.text r.display) := by
  constructor
  · intro h
    cases hsize : checkResolution line with
    | ok r =>
      have hspelled := Resolution.isSpelledBy_iff.mpr hsize
      rw [answer_size_of_isSpelledBy s i hspelled] at h
      refine ⟨r, hspelled, ?_⟩
      simpa [store, eq_comm] using h
    | error fault =>
      have hread : readSize .size line = .error fault := by
        rw [readSize, hsize]
        rfl
      simp only [answer, answerSize] at h
      cases hentered : entered? (some line) with
      | none => simp [hentered, again] at h
      | some entered =>
        obtain rfl := Option.some.inj (eq_some_of_entered? hentered)
        simp [hentered, hread, again] at h
  · rintro ⟨r, hr, rfl⟩
    rw [answer_size_of_isSpelledBy s i hr]
    rfl

end Editor

/-- A size is read exactly from the lines that spell it, and from its canonical form. In a session the
size that a line spells is stored in that form, and nothing but a size is stored. -/
theorem resolution_spelled (line : String) :
    (∀ r, checkResolution line = .ok r ↔ r.IsSpelledBy line) ∧
    (∀ fault, checkResolution line = .error fault ↔
      (∀ r : Resolution, ¬ r.IsSpelledBy line) ∧ fault = .invalidResolution (Text.trim line)) ∧
    (∀ r : Resolution, r.IsValid →
      checkResolution (intText r.width ++ ":" ++ intText r.height) = .ok r) ∧
    (∀ r, checkResolution line = .ok r →
      checkResolution (intText r.width ++ ":" ++ intText r.height) = .ok r) ∧
    ∀ (p : Profile) (i : Fin p.parameters.length) (s s₁ : Settings) (script : List String),
      ((Editor.dialogue p).feed (Editor.start p s) script).stand = .ask ⟨.scale i .size, s₁⟩ →
      (∀ s', (Editor.answer ⟨.scale i .size, s₁⟩ (some line)).next = .ask ⟨.menu, s'⟩ ↔
        ∃ r, checkResolution line = .ok r ∧
          s' = s₁.insert Key.scale (.text (intText r.width ++ ":" ++ intText r.height))) ∧
      ∀ r more, checkResolution line = .ok r →
        (Editor.edit p s (script ++ line :: more)).result = (Editor.edit p
          (s₁.insert Key.scale (.text (intText r.width ++ ":" ++ intText r.height))) more).result := by
  have hread (r : Resolution) : checkResolution line = .ok r ↔ r.IsSpelledBy line :=
    Resolution.isSpelledBy_iff.symm
  have hwritten (r : Resolution) (hr : r.IsValid) :
      checkResolution (intText r.width ++ ":" ++ intText r.height) = .ok r :=
    hr.checkResolution_display
  refine ⟨hread, fun fault => checkResolution_eq_error_iff, hwritten, fun r hr => ?_, ?_⟩
  · apply hwritten
    exact isValid_of_resolution?_eq_some (checkResolution_eq_ok_iff.mp hr)
  · intro p i s s₁ script hstand
    have hnext (s' : Settings) :
        (Editor.answer ⟨.scale i .size, s₁⟩ (some line)).next = .ask ⟨.menu, s'⟩ ↔
          ∃ r, checkResolution line = .ok r ∧
            s' = s₁.insert Key.scale (.text (intText r.width ++ ":" ++ intText r.height)) := by
      simp only [hread]
      exact Editor.next_size_iff
    refine ⟨hnext, fun r more hr => ?_⟩
    exact Editor.edit_append_cons hstand ((hnext _).mpr ⟨r, hr, rfl⟩) more

/-- Signs, zeros and blanks do not make another size of it. -/
theorem resolution_spelled_vp9 :
    let line := " +01280 :\u3000-002 "
    let s := Builtin.vp9.defaultSettings
    checkResolution line = .ok ⟨1280, -2⟩ ∧ Resolution.IsValid ⟨1280, -2⟩ ∧
      checkResolution "1280:-2" = .ok ⟨1280, -2⟩ ∧
      ((Editor.dialogue Builtin.vp9).feed (Editor.start Builtin.vp9 s) ["3", "3"]).stand =
        .ask ⟨.scale ⟨2, by decide⟩ .size, s⟩ ∧
      (Editor.edit Builtin.vp9 s ["3", "3", line, ""]).result =
        (Editor.edit Builtin.vp9 (s.insert Key.scale (.text "1280:-2")) [""]).result := by
  intro line s
  have hread : checkResolution line = .ok ⟨1280, -2⟩ := by decide +kernel
  have hdisplay : Number.intText 1280 ++ ":" ++ Number.intText (-2) = "1280:-2" := by
    decide +kernel
  have hstand : ((Editor.dialogue Builtin.vp9).feed (Editor.start Builtin.vp9 s) ["3", "3"]).stand =
      .ask ⟨.scale ⟨2, by decide⟩ .size, s⟩ := rfl
  obtain ⟨-, -, -, hagain, hsessions⟩ := resolution_spelled line
  have hreread := hagain _ hread
  have hsession := (hsessions _ _ _ _ _ hstand).2 _ [""] hread
  rw [hdisplay] at hreread hsession
  exact ⟨hread, isValid_of_resolution?_eq_some (checkResolution_eq_ok_iff.mp hread), hreread, hstand,
    hsession⟩

end Transcode
