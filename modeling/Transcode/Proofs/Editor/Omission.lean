import Mathlib.Data.List.Nodup
import Transcode.Profile.Builtin
import Transcode.Proofs.Editor.Change

/-! # What a session leaves out

A parameter is left out of commands if it is unset or to be left alone. The editor clears the picture
size and the fix and nothing else, and has a parameter left alone only if that is allowed and one of
the reset words was typed. -/

namespace Transcode

theorem Settings.renderable_eq_none_iff {s : Settings} {key : String} :
    s.renderable key = none ↔ s.get? key = none ∨ s.get? key = some .dontChange := by
  cases hv : s.get? key with
  | none => simp [renderable, hv]
  | some v => cases v <;> simp [renderable, hv, Setting.isRenderable]

theorem Setting.ofInput_ne_dontChange (line : String) : ofInput line ≠ .dontChange := by
  rw [ofInput]
  split <;> simp

namespace Profile

/-- Whether a reset word may be typed or given in the place of a choice for the parameter of a key. -/
def IsResettable (p : Profile) (key : String) : Prop :=
  ∃ q ∈ p.parameters, q.key = key ∧ q.resettable = true ∧
    ((∃ range, q.kind = .direct range) ∨ ∃ choices, q.kind = .choice choices)

/-- Whether the editor of a profile can clear a key. -/
def IsClearable (p : Profile) (key : String) : Prop :=
  (key = Key.scale ∧ ∃ q ∈ p.parameters, q.kind = .scale) ∨
    (key = Key.evenFix ∧ p.evenDimensions = true)

end Profile

namespace Editor

variable {p : Profile} {s s' : Settings} {place : Place p} {line key : String}

/-! ## One edit -/

theorem Writes.reset (hfits : place.Fits) (h : Writes place line key .dontChange) :
    p.IsResettable key ∧ isResetWord line = true := by
  generalize hv : Setting.dontChange = v at h
  cases h with
  | typed => exact absurd hv.symm (Setting.ofInput_ne_dontChange _)
  | @directReset i range _ resettable word =>
    exact ⟨⟨_, List.get_mem _ i, rfl, resettable, .inl ⟨range, hfits⟩⟩, word⟩
  | @choiceReset i choices _ resettable word =>
    exact ⟨⟨_, List.get_mem _ i, rfl, resettable, .inr ⟨choices, hfits⟩⟩, word⟩
  | chosen | sized | fixed => cases hv

theorem Clears.isClearable (hfits : place.Fits) (h : Clears place key) : p.IsClearable key := by
  cases h with
  | @scale i => exact .inl ⟨rfl, _, List.get_mem _ i, hfits⟩
  | evenFix => exact .inr ⟨rfl, hfits⟩

/-- What an edit makes of the value under a key. -/
theorem Edit.get?_cases (hfits : place.Fits) (h : Edit place line s s') (key : String) :
    s'.get? key = s.get? key ∨ (∃ v, s'.get? key = some v ∧ v ≠ .dontChange) ∨
      (s'.get? key = some .dontChange ∧ p.IsResettable key ∧ isResetWord line = true) ∨
      (s'.get? key = none ∧ p.IsClearable key) := by
  cases h with
  | @insert key' v writes =>
    by_cases hkey : key' = key
    · subst hkey
      by_cases hv : v = .dontChange
      · subst hv
        exact .inr (.inr (.inl ⟨by simp, writes.reset hfits⟩))
      · exact .inr (.inl ⟨v, by simp, hv⟩)
    · exact .inl (by simp [hkey])
  | @erase key' clears =>
    by_cases hkey : key = key'
    · subst hkey
      exact .inr (.inr (.inr ⟨by simp, clears.isClearable hfits⟩))
    · exact .inl (by simp [hkey])

/-! ## A session -/

/-- The key is that of a resettable parameter, and a reset word is among the lines. -/
def WasReset (p : Profile) (lines : List String) (key : String) : Prop :=
  p.IsResettable key ∧ ∃ line ∈ lines, isResetWord line = true

/-- What is left out of the settings of a session that reads some lines, and was not before. -/
structure Omits (p : Profile) (lines : List String) (s s' : Settings) : Prop where
  alone : ∀ key, s'.get? key = some .dontChange → s.get? key ≠ some .dontChange →
    WasReset p lines key
  omitted : ∀ key, s.renderable key ≠ none → s'.renderable key = none →
    WasReset p lines key ∨ p.IsClearable key

theorem Omits.refl (p : Profile) (lines : List String) (s : Settings) : Omits p lines s s where
  alone _ h hbefore := absurd h hbefore
  omitted _ hbefore h := absurd h hbefore

theorem Omits.edit {lines : List String} {s₀ : Settings} (h : Omits p lines s₀ s)
    (hfits : place.Fits) (hline : line ∈ lines) (hedit : Edit place line s s') :
    Omits p lines s₀ s' where
  alone key halone hbefore := by
    rcases hedit.get?_cases hfits key with hsame | ⟨v, hv, hne⟩ | ⟨-, hreset, hword⟩ | ⟨hnone, -⟩
    · exact h.alone key (hsame ▸ halone) hbefore
    · rw [hv] at halone
      exact absurd (Option.some.inj halone) hne
    · exact ⟨hreset, line, hline, hword⟩
    · rw [hnone] at halone
      cases halone
  omitted key hbefore homitted := by
    rcases hedit.get?_cases hfits key with hsame | ⟨v, hv, hne⟩ | ⟨-, hreset, hword⟩ | ⟨-, hclear⟩
    · apply h.omitted key hbefore
      rw [Settings.renderable, hsame] at homitted
      exact homitted
    · rw [Settings.renderable_eq_none_iff, hv] at homitted
      rcases homitted with hnone | halone
      · cases hnone
      · exact absurd (Option.some.inj halone) hne
    · exact .inl ⟨hreset, line, hline, hword⟩
    · exact .inr hclear

theorem Tells.omits {script read : List String} {questions : List (Question (State p))} {n : Nat}
    (ht : Tells p s script questions read n) : Omits p read s (edit p s script).result := by
  refine (ht.edit_induction (I := Omits p read s) ?_ (.refl p read s)).2
  intro place line s₁ s₂ hfits hline hedit h
  exact h.edit hfits hline hedit

end Editor

/-- With distinct keys, the key of a parameter that is not resettable is not that of another one. -/
theorem Profile.not_isResettable {p : Profile} (hkeys : (p.parameters.map (·.key)).Nodup)
    {q : Parameter} (hq : q ∈ p.parameters) (hreset : q.resettable = false) :
    ¬ p.IsResettable q.key := by
  rintro ⟨q', hq', hkey, hreset', -⟩
  obtain rfl := List.inj_on_of_nodup_map hkeys hq' hq hkey
  rw [hreset] at hreset'
  cases hreset'

namespace Editor

/-- A session has a parameter left alone only where a reset word was read for it and allowed, and
leaves out nothing else but a picture size or a fix that was cleared. In a profile with distinct keys,
no other parameter that is not resettable comes to be left out. -/
theorem edit_omits (p : Profile) (s : Settings) (script : List String) :
    ∃ read, script = read ++ (edit p s script).unread ∧
      (∀ key, (edit p s script).result.get? key = some .dontChange →
        s.get? key ≠ some .dontChange →
          p.IsResettable key ∧ ∃ line ∈ read, isResetWord line = true) ∧
      (∀ key, s.renderable key ≠ none → (edit p s script).result.renderable key = none →
        (p.IsResettable key ∧ ∃ line ∈ read, isResetWord line = true) ∨
          (key = Key.scale ∧ ∃ q ∈ p.parameters, q.kind = .scale) ∨
          (key = Key.evenFix ∧ p.evenDimensions = true)) ∧
      ((p.parameters.map (·.key)).Nodup → ∀ q ∈ p.parameters, q.resettable = false →
        q.key ≠ Key.scale → q.key ≠ Key.evenFix →
          ((edit p s script).result.get? q.key = some .dontChange →
            s.get? q.key = some .dontChange) ∧
          (s.renderable q.key ≠ none → (edit p s script).result.renderable q.key ≠ none)) := by
  obtain ⟨questions, read, n, ht⟩ := (dialogue p).exists_tells (start p s) script
  have homits : Omits p read s (edit p s script).result := Tells.omits ht
  refine ⟨read, ht.script_eq, homits.alone, homits.omitted, ?_⟩
  intro hkeys q hq hreset hscale hfix
  have hkept := Profile.not_isResettable hkeys hq hreset
  constructor
  · intro halone
    by_contra hbefore
    exact hkept (homits.alone q.key halone hbefore).1
  · intro hbefore homitted
    rcases homits.omitted q.key hbefore homitted with ⟨hreset, -⟩ | ⟨hkey, -⟩ | ⟨hkey, -⟩
    · exact hkept hreset
    · exact hscale hkey
    · exact hfix hkey

/-- The frame rate is reset, while the quality takes no reset word. -/
theorem edit_omits_vp9 :
    let s : Settings := Builtin.vp9.defaultSettings.insert "fps" (.int 30)
    let session := edit Builtin.vp9 s ["5", " Reset", "1", "r", "", "", "1"]
    (s.get? "fps" ≠ some .dontChange ∧ session.result.get? "fps" = some .dontChange ∧
        Builtin.vp9.IsResettable "fps" ∧ session.unread = ["1"]) ∧
      (Builtin.vp9.parameters.map (·.key)).Nodup ∧
      (s.renderable "crf" ≠ none ∧ session.result.renderable "crf" ≠ none) := by
  intro s session
  have hfps : s.get? "fps" ≠ some .dontChange ∧
      session.result.get? "fps" = some .dontChange ∧ session.unread = ["1"] := by
    decide +kernel
  have hkeys : (Builtin.vp9.parameters.map (·.key)).Nodup := by decide +kernel
  have hcrf : s.renderable "crf" ≠ none ∧ ∃ q ∈ Builtin.vp9.parameters, q.key = "crf" ∧
      q.resettable = false ∧ q.key ≠ Key.scale ∧ q.key ≠ Key.evenFix := by
    decide +kernel
  obtain ⟨read, -, halone, -, hkept⟩ := edit_omits Builtin.vp9 s ["5", " Reset", "1", "r", "", "", "1"]
  obtain ⟨hbefore, q, hq, hkey, hreset, hscale, hfix⟩ := hcrf
  have hquality := (hkept hkeys q hq hreset hscale hfix).2
  rw [hkey] at hquality
  exact ⟨⟨hfps.1, hfps.2.1, (halone "fps" hfps.2.1 hfps.1).1, hfps.2.2⟩, hkeys, hbefore,
    hquality hbefore⟩

end Editor

end Transcode
