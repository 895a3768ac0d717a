import Transcode.Program.Batch
import Transcode.Proofs.Editor.Change
import Transcode.Proofs.Plan.Faults

/-! # Settings keep their plans

Settings have plans as long as the passes, the container and the fix are such that there are plans.
What the editor stores under their keys comes from the lists of choices of a profile, or is a fix, and
it clears no container. -/

namespace Transcode

open Text (isBlankLine)

/-! ## Single values -/

/-- A value that settings with plans may take under a key. -/
structure Setting.Suits (key : String) (v : Setting) : Prop where
  passes : key = Key.passes → Setting.IsUnsetOr PassMode.words (some v)
  container : key = Key.container → v ≠ .dontChange ∧ isBlankLine v.display = false
  evenFix : key = Key.evenFix → Setting.IsUnsetOr EvenFix.words (some v)

theorem EvenFix.suits (fix : EvenFix) : Setting.Suits Key.evenFix (.text fix.value) where
  passes hkey := absurd hkey (by decide +kernel)
  container hkey := absurd hkey (by decide +kernel)
  evenFix _ := .inr (.inr ⟨fix.value, by cases fix <;> decide, rfl⟩)

/-- What is stored for a picture size is none of the values that plans depend on. -/
theorem Setting.suits_scale (v : Setting) : Setting.Suits Key.scale v where
  passes hkey := absurd hkey (by decide +kernel)
  container hkey := absurd hkey (by decide +kernel)
  evenFix hkey := absurd hkey (by decide +kernel)

namespace Profile

variable {p : Profile} {s : Settings} {key : String} {v : Setting}

theorem Allows.insert (h : p.Allows s) (hv : v.Suits key) : p.Allows (s.insert key v) where
  passes := by
    rw [Keyed.get?_insert]
    split
    · exact hv.passes ‹_›
    · exact h.passes
  container := by
    intro hlacks
    by_cases hkey : key = Key.container
    · obtain ⟨hchange, hblank⟩ := hv.container hkey
      rcases hlacks v (by simp [hkey]) with hleft | hleft
      · exact hchange hleft
      · rw [hblank] at hleft
        cases hleft
    · refine h.container fun v' hstored => hlacks v' ?_
      rwa [Keyed.get?_insert, if_neg hkey]
  evenFix heven := by
    rw [Keyed.get?_insert]
    split
    · exact hv.evenFix ‹_›
    · exact h.evenFix heven

/-- Only the container has to be set. -/
theorem Allows.erase (h : p.Allows s) (hkey : key ≠ Key.container) : p.Allows (s.erase key) where
  passes := by
    rw [Keyed.get?_erase]
    split
    · exact .inl rfl
    · exact h.passes
  container := by
    refine fun hlacks => h.container fun v' hstored => hlacks v' ?_
    rwa [Keyed.get?_erase, if_neg hkey.symm]
  evenFix heven := by
    rw [Keyed.get?_erase]
    split
    · exact .inl rfl
    · exact h.evenFix heven

theorem Allows.seeded (h : p.Allows s) : p.Allows (s.seeded p) := by
  rw [Settings.seeded]
  split
  · exact h.insert (EvenFix.suits .pad)
  · exact h

end Profile

/-! ## Profiles -/

/-- All values of a kind are those of a list of choices, and have a property. -/
def Kind.Offers (P : String → Prop) : Kind → Prop
  | .choice choices => ∀ c ∈ choices, P c.value
  | .direct _ | .scale => False

instance (P : String → Prop) [DecidablePred P] : DecidablePred (Kind.Offers P)
  | .choice choices => inferInstanceAs (Decidable (∀ c ∈ choices, P c.value))
  | .direct _ | .scale => inferInstanceAs (Decidable False)

/-- A profile whose choices for the passes and for the container are such that there are plans, and
which leaves the key of the fix alone. A container cannot be left open. -/
structure Profile.KeepsPlans (p : Profile) : Prop where
  passes : ∀ q ∈ p.parameters, q.key = Key.passes → q.kind.Offers (· ∈ PassMode.words)
  container : ∀ q ∈ p.parameters, q.key = Key.container →
    q.resettable = false ∧ q.kind.Offers (isBlankLine · = false)
  evenFix : ∀ q ∈ p.parameters, q.key ≠ Key.evenFix

theorem keepsPlans_builtin {p : Profile} (hp : p ∈ builtinProfiles) : p.KeepsPlans := by
  have htables : ∀ p ∈ builtinProfiles, ∀ q ∈ p.parameters,
      (q.key = Key.passes → q.kind.Offers (· ∈ PassMode.words)) ∧
      (q.key = Key.container → q.resettable = false ∧ q.kind.Offers (isBlankLine · = false)) ∧
      q.key ≠ Key.evenFix := by
    decide +kernel
  exact ⟨fun q hq => (htables p hp q hq).1, fun q hq => (htables p hp q hq).2.1,
    fun q hq => (htables p hp q hq).2.2⟩

section

variable {p : Profile} (hp : p.KeepsPlans) {q : Parameter} (hq : q ∈ p.parameters)

include hp hq

theorem Profile.KeepsPlans.suits_ofInput {range : Range} (hkind : q.kind = .direct range)
    (line : String) : (Setting.ofInput line).Suits q.key where
  passes hkey := by
    have hoffers := hp.passes q hq hkey
    rw [hkind] at hoffers
    exact hoffers.elim
  container hkey := by
    have hoffers := (hp.container q hq hkey).2
    rw [hkind] at hoffers
    exact hoffers.elim
  evenFix hkey := absurd hkey (hp.evenFix q hq)

theorem Profile.KeepsPlans.suits_choice {choices : List Choice} (hkind : q.kind = .choice choices)
    {c : Choice} (hc : c ∈ choices) : (Setting.text c.value).Suits q.key where
  passes hkey := by
    have hoffers := hp.passes q hq hkey
    rw [hkind] at hoffers
    exact .inr (.inr ⟨c.value, hoffers c hc, rfl⟩)
  container hkey := by
    have hoffers := (hp.container q hq hkey).2
    rw [hkind] at hoffers
    exact ⟨by simp, hoffers c hc⟩
  evenFix hkey := absurd hkey (hp.evenFix q hq)

theorem Profile.KeepsPlans.suits_dontChange (hresettable : q.resettable = true) :
    Setting.dontChange.Suits q.key where
  passes _ := .inr (.inl rfl)
  container hkey := by
    rw [(hp.container q hq hkey).1] at hresettable
    cases hresettable
  evenFix _ := .inr (.inl rfl)

end

namespace Editor

variable {p : Profile} {s s' : Settings} {place : Place p} {line key : String} {v : Setting}

/-! ## Sessions -/

/-- Whatever the editor stores leaves settings with their plans. -/
theorem suits_of_writes (hp : p.KeepsPlans) (hfits : place.Fits)
    (hwrites : Writes place line key v) : v.Suits key := by
  have hmem (i : Fin p.parameters.length) : p.parameters.get i ∈ p.parameters := List.get_mem _ i
  cases hwrites with
  | typed accepted => exact hp.suits_ofInput (hmem _) hfits line
  | chosen mem => exact hp.suits_choice (hmem _) hfits mem
  | directReset resettable | choiceReset resettable =>
    exact hp.suits_dontChange (hmem _) resettable
  | sized => exact Setting.suits_scale _
  | fixed fix => exact fix.suits

theorem Clears.ne_container (h : Clears place key) : key ≠ Key.container := by
  cases h <;> decide +kernel

theorem allows_of_edit (hp : p.KeepsPlans) (hfits : place.Fits) (hedit : Edit place line s s')
    (hs : p.Allows s) : p.Allows s' := by
  cases hedit with
  | insert writes => exact hs.insert (suits_of_writes hp hfits writes)
  | erase clears => exact hs.erase clears.ne_container

theorem allows_edit (hp : p.KeepsPlans) (hs : p.Allows s) (script : List String) :
    p.Allows (edit p s script).result :=
  edit_induction (fun _ _ _ _ hfits _ hedit => allows_of_edit hp hfits hedit) hs

end Editor

theorem allows_defaultSettings {p : Profile} (hp : p ∈ builtinProfiles) :
    p.Allows p.defaultSettings := by
  have hplans : ∀ p ∈ builtinProfiles,
      (p.plan p.defaultSettings (.ofString "a") (.ofString "b")).isOk = true := by
    decide +kernel
  exact Profile.exists_plan_iff.mp (exists_ok_of_isOk (hplans p hp))

/-- If there is a plan for some input, there are plans for all inputs after every session. So there
are for the settings that a profile starts with, be they seeded or not. -/
theorem exists_plan_edit {p : Profile} (hp : p ∈ builtinProfiles) :
    (∀ (s : Settings) (input directory : Path) (plan : Plan), p.plan s input directory = .ok plan →
      ∀ (script : List String) (input' directory' : Path),
        ∃ plan', p.plan (Editor.edit p s script).result input' directory' = .ok plan') ∧
    ∀ s ∈ [p.defaultSettings, p.defaultSettings.seeded p],
      ∀ (script : List String) (input directory : Path),
        ∃ plan, p.plan (Editor.edit p s script).result input directory = .ok plan := by
  have hedited {s : Settings} (hs : p.Allows s) (script : List String) (input directory : Path) :
      ∃ plan, p.plan (Editor.edit p s script).result input directory = .ok plan :=
    Profile.exists_plan_iff.mpr (Editor.allows_edit (keepsPlans_builtin hp) hs script)
  have hdefaults := allows_defaultSettings hp
  refine ⟨fun s input directory plan hplan => hedited (Profile.exists_plan_iff.mp ⟨plan, hplan⟩), ?_⟩
  intro s hs
  rcases List.mem_pair.mp hs with rfl | rfl
  · exact hedited hdefaults
  · exact hedited hdefaults.seeded

/-- The passes and the container are chosen anew, and the fix is chosen and cancelled. -/
theorem exists_plan_edit_av1 :
    let p := Builtin.av1
    let s := p.defaultSettings.insert Key.evenFix .dontChange
    let s' := (Editor.edit p s ["9", "1", "13", "3", "14", "2", "14", "3", ""]).result
    p ∈ builtinProfiles ∧ (∃ plan, p.plan s (.ofString "a.mov") (.ofString "out") = .ok plan) ∧
      s'.get? Key.passes = some (.text "One-Pass") ∧ s'.get? Key.container = some (.text "webm") ∧
      s'.get? Key.evenFix = none ∧
      ∃ plan, p.plan s' (.ofString "b.mov") (.ofString "/srv") = .ok plan := by
  intro p s s'
  have hp : p ∈ builtinProfiles := by simp [builtinProfiles, p]
  obtain ⟨plan, hplan⟩ : ∃ plan, p.plan s (.ofString "a.mov") (.ofString "out") = .ok plan :=
    exists_ok_of_isOk (by decide +kernel)
  obtain ⟨hsessions, -⟩ := exists_plan_edit hp
  exact ⟨hp, ⟨plan, hplan⟩, by decide +kernel, by decide +kernel, by decide +kernel,
    hsessions s _ _ plan hplan _ _ _⟩

end Transcode
