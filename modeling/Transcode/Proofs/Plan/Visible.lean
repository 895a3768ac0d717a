import Mathlib.Data.List.Basic
import Transcode.Plan.Basic
import Transcode.Profile.Builtin

/-! # What plans see of settings

A plan depends on the renderable values of a few keys and on nothing else that settings hold. -/

namespace Transcode

/-! ## Words and renderable values

Pass mode and fix are read from stored values. A value to be left alone counts there as none. -/

theorem PassMode.ofSetting_get? (s : Settings) (key : String) :
    PassMode.ofSetting (s.get? key) = PassMode.ofSetting (s.renderable key) := by
  cases h : s.get? key with
  | none => simp only [Settings.renderable, h, Option.filter_none]
  | some v => cases v <;> simp only [Settings.renderable, h] <;> rfl

theorem EvenFix.ofSetting_get? (s : Settings) (key : String) :
    EvenFix.ofSetting (s.get? key) = EvenFix.ofSetting (s.renderable key) := by
  cases h : s.get? key with
  | none => simp only [Settings.renderable, h, Option.filter_none]
  | some v => cases v <;> simp only [Settings.renderable, h] <;> rfl

/-! ## Rendering -/

theorem Parameter.render?_congr {q : Parameter} {s s' : Settings}
    (h : s.renderable q.key = s'.renderable q.key) : q.render? s = q.render? s' := by
  simp only [render?, h]

theorem Parameter.fragment?_congr {q : Parameter} {s s' : Settings}
    (h : s.renderable q.key = s'.renderable q.key) : q.fragment? s = q.fragment? s' := by
  simp only [fragment?, render?_congr h]

namespace Profile

/-- Settings in which the parameters of a context have the same renderable values. -/
def AgreeOn (p : Profile) (s s' : Settings) (c : Context) : Prop :=
  ∀ q ∈ p.parameters, q.context = c → s.renderable q.key = s'.renderable q.key

variable {p : Profile} {s s' : Settings}

theorem AgreeOn.of_mem {c : Context} (h : p.AgreeOn s s' c) {q : Parameter}
    (hq : q ∈ p.inContext c) : s.renderable q.key = s'.renderable q.key := by
  obtain ⟨hq, hc⟩ := List.mem_filter.mp hq
  exact h q hq (by simpa using hc)

theorem fragments_congr {c : Context} (h : p.AgreeOn s s' c) :
    p.fragments s c = p.fragments s' c :=
  List.filterMap_congr fun _ hq => Parameter.fragment?_congr (h.of_mem hq)

theorem arguments_congr {c : Context} (h : p.AgreeOn s s' c) :
    p.arguments s c = p.arguments s' c :=
  congrArg List.flatten (List.filterMap_congr fun _ hq => Parameter.render?_congr (h.of_mem hq))

theorem filterFragment?_congr {q : Parameter} (hq : s.renderable q.key = s'.renderable q.key)
    (h : p.AgreeOn s s' .scaleFilterParameter) :
    p.filterFragment? s q = p.filterFragment? s' q := by
  simp only [filterFragment?, Parameter.fragment?_congr hq, fragments_congr h]

theorem weave_congr {qs : List Parameter}
    (hqs : ∀ q ∈ qs, s.renderable q.key = s'.renderable q.key)
    (h : p.AgreeOn s s' .scaleFilterParameter) (fix : Option String) :
    p.weave s fix qs = p.weave s' fix qs := by
  induction qs generalizing fix with
  | nil => rfl
  | cons q qs ih =>
    have hq := filterFragment?_congr (hqs q (by simp)) h
    have hrest := ih fun x hx => hqs x (by simp [hx])
    simp only [weave, hq, hrest]

theorem videoFilters_congr (h : p.AgreeOn s s' .videoFilter)
    (hscale : p.AgreeOn s s' .scaleFilterParameter) (fix : Option EvenFix) :
    p.videoFilters s fix = p.videoFilters s' fix := by
  simp only [videoFilters, weave_congr (fun _ hq => h.of_mem hq) hscale]

/-- What is rendered depends on the parameters that belong to a part of a command. -/
theorem rendering_congr (h : ∀ c ≠ .metadata, p.AgreeOn s s' c) (fix : Option EvenFix) :
    p.rendering s fix = p.rendering s' fix := by
  simp only [rendering, videoFilters_congr (h .videoFilter (by decide))
    (h .scaleFilterParameter (by decide)), arguments_congr (h .videoCodecOption (by decide)),
    fragments_congr (h .vendorSpecialOption (by decide)),
    fragments_congr (h .audioFilter (by decide)),
    arguments_congr (h .audioCodecSelector (by decide)),
    arguments_congr (h .audioCodecOption (by decide))]

theorem container_congr (h : s.renderable Key.container = s'.renderable Key.container) :
    p.container s = p.container s' := by
  simp only [container, h]

theorem evenFix_congr
    (h : p.evenDimensions = true → s.renderable Key.evenFix = s'.renderable Key.evenFix) :
    p.evenFix s = p.evenFix s' := by
  simp only [evenFix, EvenFix.ofSetting_get?]
  split
  · rename_i hp
    rw [h hp]
  · rfl

theorem outputPath_congr (h : s.renderable p.qualityKey = s'.renderable p.qualityKey)
    (input directory : Path) (mode : PassMode) (container : String) :
    p.outputPath s input directory mode container =
      p.outputPath s' input directory mode container := by
  simp only [outputPath, outputName, shownQuality, h]

/-! ## Names of outputs -/

/-- The name of an output is made of what is shown of the input's stem, the profile, the quality, the
number of passes and the container. -/
theorem outputName_onePass (p : Profile) (s : Settings) (input : Path) (container : String) :
    p.outputName s input .onePass container = input.shownStem ++ "_" ++ p.name ++ "_q" ++
      p.shownQuality s ++ "_1pass." ++ container := by
  rw [← String.toList_inj]
  simp [outputName, PassMode.suffix]

theorem outputName_twoPass (p : Profile) (s : Settings) (input : Path) (container : String) :
    p.outputName s input .twoPass container = input.shownStem ++ "_" ++ p.name ++ "_q" ++
      p.shownQuality s ++ "_2pass." ++ container := by
  rw [← String.toList_inj]
  simp [outputName, PassMode.suffix]

theorem display_of_container {container : String} (h : p.container s = .ok container) :
    ∃ v, s.renderable Key.container = some v ∧ v.display = container := by
  rw [Profile.container] at h
  cases hv : s.renderable Key.container with
  | none => simp [hv] at h
  | some v =>
    rw [hv] at h
    dsimp only at h
    split at h
    · cases h
    · exact ⟨v, rfl, Except.ok.inj h⟩

/-! ## Plans -/

/-- Settings that have the same renderable values under all keys that a plan looks at. -/
structure LookAlike (p : Profile) (s s' : Settings) : Prop where
  parameters : ∀ q ∈ p.parameters, s.renderable q.key = s'.renderable q.key
  passes : s.renderable Key.passes = s'.renderable Key.passes
  container : s.renderable Key.container = s'.renderable Key.container
  quality : s.renderable p.qualityKey = s'.renderable p.qualityKey
  evenFix : p.evenDimensions = true → s.renderable Key.evenFix = s'.renderable Key.evenFix

theorem LookAlike.plan_eq (h : p.LookAlike s s') (input directory : Path) :
    p.plan s input directory = p.plan s' input directory := by
  have hr (fix : Option EvenFix) : p.rendering s fix = p.rendering s' fix :=
    rendering_congr (fun _ _ q hq _ => h.parameters q hq) fix
  simp only [plan, PassMode.ofSetting_get?, h.passes, container_congr h.container,
    evenFix_congr h.evenFix, outputPath_congr h.quality, hr]

/-- A key that a plan does not look at. -/
structure IsUnseen (p : Profile) (key : String) : Prop where
  parameters : ∀ q ∈ p.parameters, q.key ≠ key
  passes : key ≠ Key.passes
  container : key ≠ Key.container
  quality : key ≠ p.qualityKey
  evenFix : p.evenDimensions = true → key ≠ Key.evenFix

end Profile

namespace Settings

theorem renderable_congr {s s' : Settings} {key : String} (h : s.get? key = s'.get? key) :
    s.renderable key = s'.renderable key := by
  simp only [renderable, h]

theorem renderable_insert_of_ne {key k : String} (h : key ≠ k) (s : Settings) (v : Setting) :
    renderable (s.insert key v) k = s.renderable k :=
  renderable_congr (by simp [h])

theorem renderable_insert_dontChange (s : Settings) (key k : String) :
    renderable (s.insert key .dontChange) k = renderable (s.erase key) k := by
  by_cases h : key = k
  · simp only [renderable, Keyed.get?_insert, Keyed.get?_erase, if_pos h, if_pos h.symm]
    rfl
  · simp only [renderable, Keyed.get?_insert, Keyed.get?_erase, if_neg h, if_neg (Ne.symm h)]

end Settings

/-- Settings that look alike have the same plans, and the same faults where there is no plan. So it
makes no difference whether a key is unset or to be left alone, nor what is stored under a key that is
not looked at. -/
theorem plan_of_renderable (p : Profile) (input directory : Path) :
    (∀ s s' : Settings, p.LookAlike s s' → p.plan s input directory = p.plan s' input directory) ∧
    (∀ (s : Settings) (key : String),
      p.plan (s.insert key .dontChange) input directory = p.plan (s.erase key) input directory) ∧
    ∀ (s : Settings) (key : String) (v : Setting), p.IsUnseen key →
      p.plan (s.insert key v) input directory = p.plan s input directory := by
  refine ⟨fun s s' h => h.plan_eq input directory, fun s key => ?_, fun s key v h => ?_⟩
  · have hk := s.renderable_insert_dontChange key
    exact Profile.LookAlike.plan_eq
      ⟨fun q _ => hk q.key, hk _, hk _, hk _, fun _ => hk _⟩ input directory
  · have hk (k : String) (hne : key ≠ k) := s.renderable_insert_of_ne hne v
    exact Profile.LookAlike.plan_eq
      ⟨fun q hq => hk q.key (h.parameters q hq).symm, hk _ h.passes, hk _ h.container,
        hk _ h.quality, fun he => hk _ (h.evenFix he)⟩ input directory

/-- The picture size of these settings is to be left alone, so it may as well be unset; and without
the need for even sizes any word may stand for a fix. -/
theorem plan_of_renderable_vp9 :
    let p : Profile := { Builtin.vp9 with evenDimensions := false }
    let s := p.defaultSettings
    p.LookAlike s (s.erase Key.scale) ∧ p.IsUnseen Key.evenFix ∧
      ∀ input directory, p.plan s input directory = p.plan (s.erase Key.scale) input directory ∧
        p.plan (s.insert Key.evenFix (.text "stretch")) input directory =
          p.plan s input directory := by
  intro p s
  have hl : p.LookAlike s (s.erase Key.scale) :=
    ⟨by decide +kernel, by decide +kernel, by decide +kernel, by decide +kernel, by decide +kernel⟩
  have hu : p.IsUnseen Key.evenFix := ⟨by decide, by decide, by decide, by decide, by decide⟩
  refine ⟨hl, hu, fun input directory => ?_⟩
  obtain ⟨halike, -, hunseen⟩ := plan_of_renderable p input directory
  exact ⟨halike s _ hl, hunseen s _ _ hu⟩

end Transcode
