import Transcode.Proofs.Plan.Layout

/-! # Settings without plans

What is stored for the passes, the container and the fix decides whether settings have plans. The
input and the output directory have no say in it. -/

namespace Transcode

/-! ## The values that are looked at -/

/-- Nothing is stored, or a value to be left alone, or one of some words. -/
def Setting.IsUnsetOr (words : List String) (v : Option Setting) : Prop :=
  v = none ∨ v = some .dontChange ∨ ∃ word ∈ words, v = some (.text word)

instance (words : List String) (v : Option Setting) : Decidable (Setting.IsUnsetOr words v) :=
  inferInstanceAs (Decidable (_ ∨ _ ∨ ∃ word ∈ words, _))

/-- The words for the number of passes. -/
def PassMode.words : List String := ["One-Pass", "Two-Pass"]

/-- The words for a fix of odd picture sizes. -/
def EvenFix.words : List String := ["pad", "crop"]

/-- No container is stored, or one that is to be left alone or blank. -/
def Settings.LacksContainer (s : Settings) : Prop :=
  ∀ v, s.get? Key.container = some v → v = .dontChange ∨ Text.isBlankLine v.display = true

theorem Settings.lacksContainer_iff {s : Settings} : s.LacksContainer ↔
    ∀ v, s.renderable Key.container = some v → Text.isBlankLine v.display = true := by
  simp only [LacksContainer, renderable_eq_some_iff]
  constructor
  · rintro h v ⟨hstored, hv⟩
    exact (h v hstored).resolve_left hv
  · intro h v hstored
    by_cases hv : v = .dontChange
    · exact .inl hv
    · exact .inr (h v ⟨hstored, hv⟩)

theorem PassMode.ofSetting_eq_error_iff {v : Option Setting} {fault : PlanFault} :
    ofSetting v = .error fault ↔
      ¬ Setting.IsUnsetOr words v ∧ ∃ w ∈ v, fault = .invalidPassMode w.display := by
  rcases v with _ | n | t | _
  · simp [ofSetting, Setting.IsUnsetOr]
  · simp [ofSetting, Setting.IsUnsetOr, eq_comm]
  · by_cases hone : t = "One-Pass" <;> by_cases htwo : t = "Two-Pass" <;>
      simp [ofSetting, Setting.IsUnsetOr, words, display, hone, htwo, eq_comm]
  · simp [ofSetting, Setting.IsUnsetOr]

theorem EvenFix.ofSetting_eq_error_iff {v : Option Setting} {fault : PlanFault} :
    ofSetting v = .error fault ↔
      ¬ Setting.IsUnsetOr words v ∧ ∃ w ∈ v, fault = .invalidEvenFix w.display := by
  rcases v with _ | n | t | _
  · simp [ofSetting, Setting.IsUnsetOr]
  · simp [ofSetting, Setting.IsUnsetOr, eq_comm]
  · by_cases hpad : t = "pad" <;> by_cases hcrop : t = "crop" <;>
      simp [ofSetting, Setting.IsUnsetOr, words, value, hpad, hcrop, eq_comm]
  · simp [ofSetting, Setting.IsUnsetOr]

theorem exists_ok_iff {ε α : Type} {x : Except ε α} : (∃ a, x = .ok a) ↔ ∀ e, x ≠ .error e := by
  cases x <;> simp

theorem exists_ok_of_isOk {ε α : Type} {x : Except ε α} (h : x.isOk = true) : ∃ a, x = .ok a := by
  cases x with
  | error e => cases h
  | ok a => exact ⟨a, rfl⟩

/-- What is refused for a value other than some words is fine for these. -/
theorem Setting.isUnsetOr_iff_exists_ok {α : Type} {words : List String} {v : Option Setting}
    {x : Except PlanFault α} {f : Setting → PlanFault}
    (h : ∀ {fault}, x = .error fault ↔ ¬ IsUnsetOr words v ∧ ∃ w ∈ v, fault = f w) :
    (∃ a, x = .ok a) ↔ IsUnsetOr words v := by
  simp only [exists_ok_iff, ne_eq, h]
  cases v with
  | none => simp [IsUnsetOr]
  | some w => simp

theorem PassMode.exists_ofSetting_iff {v : Option Setting} :
    (∃ mode, ofSetting v = .ok mode) ↔ Setting.IsUnsetOr words v :=
  Setting.isUnsetOr_iff_exists_ok ofSetting_eq_error_iff

theorem EvenFix.exists_ofSetting_iff {v : Option Setting} :
    (∃ fix, ofSetting v = .ok fix) ↔ Setting.IsUnsetOr words v :=
  Setting.isUnsetOr_iff_exists_ok ofSetting_eq_error_iff

namespace Profile

variable {p : Profile} {s : Settings} {fault : PlanFault} {input directory : Path}

theorem container_eq_error_iff :
    p.container s = .error fault ↔ s.LacksContainer ∧ fault = .missingContainer p.name := by
  rw [Settings.lacksContainer_iff, container]
  cases s.renderable Key.container with
  | none => simpa using eq_comm
  | some v =>
    by_cases hblank : Text.isBlankLine v.display = true
    · simpa [hblank] using eq_comm
    · simp [hblank]

theorem exists_container_iff : (∃ c, p.container s = .ok c) ↔ ¬ s.LacksContainer := by
  rw [exists_ok_iff]
  simp [container_eq_error_iff]

theorem evenFix_eq_error_iff :
    p.evenFix s = .error fault ↔ p.evenDimensions = true ∧
      EvenFix.ofSetting (s.get? Key.evenFix) = .error fault := by
  cases h : p.evenDimensions <;> simp [evenFix, h]

theorem exists_evenFix_iff : (∃ fix, p.evenFix s = .ok fix) ↔
    (p.evenDimensions = true → Setting.IsUnsetOr EvenFix.words (s.get? Key.evenFix)) := by
  cases h : p.evenDimensions <;> simp [evenFix, h, EvenFix.exists_ofSetting_iff]

/-! ## The first fault -/

/-- The fault that keeps settings from having plans. The passes are looked at first, then the
container, and then the fix if the encoder needs even picture sizes. -/
inductive Refuses (p : Profile) (s : Settings) : PlanFault → Prop where
  | passes {v : Setting} (stored : s.get? Key.passes = some v)
      (other : ¬ Setting.IsUnsetOr PassMode.words (some v)) :
      Refuses p s (.invalidPassMode v.display)
  | container (passes : Setting.IsUnsetOr PassMode.words (s.get? Key.passes))
      (missing : s.LacksContainer) : Refuses p s (.missingContainer p.name)
  | evenFix {v : Setting} (passes : Setting.IsUnsetOr PassMode.words (s.get? Key.passes))
      (container : ¬ s.LacksContainer) (needed : p.evenDimensions = true)
      (stored : s.get? Key.evenFix = some v)
      (other : ¬ Setting.IsUnsetOr EvenFix.words (some v)) :
      Refuses p s (.invalidEvenFix v.display)

/-- The fault of a plan is that of the first check that fails. -/
theorem plan_eq_error_cases :
    p.plan s input directory = .error fault ↔
      PassMode.ofSetting (s.get? Key.passes) = .error fault ∨
      (∃ mode, PassMode.ofSetting (s.get? Key.passes) = .ok mode) ∧
        (p.container s = .error fault ∨
          (∃ c, p.container s = .ok c) ∧ p.evenFix s = .error fault) := by
  simp only [plan]
  cases PassMode.ofSetting (s.get? Key.passes) with
  | error fault => simp [bind, Except.bind]
  | ok mode =>
    cases p.container s with
    | error fault => simp [bind, Except.bind]
    | ok c =>
      cases p.evenFix s with
      | error fault => simp [bind, Except.bind]
      | ok fix => simp [bind, Except.bind, pure, Except.pure]

theorem plan_eq_error_iff : p.plan s input directory = .error fault ↔ p.Refuses s fault := by
  rw [plan_eq_error_cases, PassMode.exists_ofSetting_iff, exists_container_iff,
    container_eq_error_iff, evenFix_eq_error_iff, PassMode.ofSetting_eq_error_iff,
    EvenFix.ofSetting_eq_error_iff]
  constructor
  · rintro (⟨hother, v, hv, rfl⟩ |
      ⟨hpasses, ⟨hmissing, rfl⟩ | ⟨hcontainer, hneeded, hother, v, hv, rfl⟩⟩)
    · have hstored : s.get? Key.passes = some v := hv
      exact .passes hstored (hstored ▸ hother)
    · exact .container hpasses hmissing
    · have hstored : s.get? Key.evenFix = some v := hv
      exact .evenFix hpasses hcontainer hneeded hstored (hstored ▸ hother)
  · intro h
    cases h with
    | passes hstored hother => exact .inl ⟨hstored ▸ hother, _, hstored, rfl⟩
    | container hpasses hmissing => exact .inr ⟨hpasses, .inl ⟨hmissing, rfl⟩⟩
    | evenFix hpasses hcontainer hneeded hstored hother =>
      exact .inr ⟨hpasses, .inr ⟨hcontainer, hneeded, hstored ▸ hother, _, hstored, rfl⟩⟩

/-- Settings that have plans. -/
structure Allows (p : Profile) (s : Settings) : Prop where
  passes : Setting.IsUnsetOr PassMode.words (s.get? Key.passes)
  container : ¬ s.LacksContainer
  evenFix : p.evenDimensions = true → Setting.IsUnsetOr EvenFix.words (s.get? Key.evenFix)

theorem exists_plan_iff : (∃ plan, p.plan s input directory = .ok plan) ↔ p.Allows s := by
  simp only [plan_eq_ok_iff]
  constructor
  · rintro ⟨-, mode, c, fix, hmode, hcontainer, hfix, -⟩
    exact ⟨PassMode.exists_ofSetting_iff.mp ⟨mode, hmode⟩, exists_container_iff.mp ⟨c, hcontainer⟩,
      exists_evenFix_iff.mp ⟨fix, hfix⟩⟩
  · rintro ⟨hpasses, hcontainer, hfix⟩
    obtain ⟨mode, hmode⟩ := PassMode.exists_ofSetting_iff.mpr hpasses
    obtain ⟨c, hc⟩ := exists_container_iff.mpr hcontainer
    obtain ⟨fix, hf⟩ := exists_evenFix_iff.mpr hfix
    exact ⟨_, mode, c, fix, hmode, hc, hf, rfl⟩

end Profile

end Transcode
