import Transcode.Proofs.Plan.Faults
import Transcode.Proofs.Plan.TwoPass
import Transcode.Proofs.Plan.Visible

/-! # The analysis

The first of two passes works on the picture alone. Nothing that settings hold for the sound, for the
name of the output or for its place gets into its command. -/

namespace Transcode

/-- Whether a context is on the picture's side of a command. -/
def Context.isPicture : Context → Bool
  | .videoFilter | .scaleFilterParameter | .videoCodecOption | .vendorSpecialOption => true
  | .audioFilter | .audioCodecSelector | .audioCodecOption | .metadata => false

namespace Profile

variable {p : Profile} {s s' : Settings}

/-- Settings that have the same renderable values for the picture, including the fix for odd picture
sizes where the encoder needs even ones. -/
structure SamePicture (p : Profile) (s s' : Settings) : Prop where
  parameters : ∀ q ∈ p.parameters, q.context.isPicture = true →
    s.renderable q.key = s'.renderable q.key
  evenFix : p.evenDimensions = true → s.renderable Key.evenFix = s'.renderable Key.evenFix

theorem SamePicture.agreeOn (h : p.SamePicture s s') {c : Context} (hc : c.isPicture = true) :
    p.AgreeOn s s' c := by
  intro q hq hqc
  exact h.parameters q hq (hqc ▸ hc)

/-- The arguments up to the vendor's parameters leave out the sound. -/
theorem videoArguments_congr {r r' : Rendering} (hfilters : r.videoFilters = r'.videoFilters)
    (hoptions : r.videoOptions = r'.videoOptions) (hvendor : r.vendor = r'.vendor) (input : Path)
    (pass : Pass) : p.videoArguments r input pass = p.videoArguments r' input pass := by
  have hvalues : p.vendorValues r pass = p.vendorValues r' pass := by
    simp only [vendorValues, hvendor]
  simp only [videoArguments, vendorOption, hfilters, hoptions, hvalues]

theorem SamePicture.command_eq (h : p.SamePicture s s') (fix : Option EvenFix)
    (input output output' : Path) :
    p.command (p.rendering s fix) input output .analysis =
      p.command (p.rendering s' fix) input output' .analysis := by
  have hfilters : p.videoFilters s fix = p.videoFilters s' fix :=
    videoFilters_congr (h.agreeOn rfl) (h.agreeOn rfl) fix
  have hoptions : p.arguments s .videoCodecOption = p.arguments s' .videoCodecOption :=
    arguments_congr (h.agreeOn rfl)
  have hvendor : p.fragments s .vendorSpecialOption = p.fragments s' .vendorSpecialOption :=
    fragments_congr (h.agreeOn rfl)
  have hvideo : p.videoArguments (p.rendering s fix) input .analysis =
      p.videoArguments (p.rendering s' fix) input .analysis :=
    videoArguments_congr hfilters hoptions hvendor input .analysis
  rw [command, command, hvideo]
  rfl

theorem exists_commands_of_twoPass {input directory : Path} {plan : Plan}
    (hs : s.get? Key.passes = some (.text "Two-Pass")) (h : p.plan s input directory = .ok plan) :
    ∃ fix, p.evenFix s = .ok fix ∧
      plan.commands =
        (passes .twoPass).map (p.command (p.rendering s fix) input plan.output) := by
  obtain ⟨mode, c, fix, hmode, -, hfix, hplan⟩ := plan_eq_ok_iff.mp h
  have htwo : PassMode.ofSetting (some (.text "Two-Pass")) = .ok .twoPass :=
    PassMode.ofSetting_display .twoPass
  rw [hs, htwo] at hmode
  obtain rfl := Except.ok.inj hmode
  refine ⟨fix, hfix, ?_⟩
  rw [hplan]

end Profile

/-- Two plans of two passes for one input have the same analysis, in its arguments and as it is shown,
if their settings have the same picture. Where the outputs go does not matter, nor what is stored for
the sound and for the names of the outputs. -/
theorem analysis_of_samePicture {p : Profile} {s s' : Settings} {input directory directory' : Path}
    {plan plan' : Plan} (hs : s.get? Key.passes = some (.text "Two-Pass"))
    (hs' : s'.get? Key.passes = some (.text "Two-Pass"))
    (h : p.plan s input directory = .ok plan) (h' : p.plan s' input directory' = .ok plan')
    (hsame : p.SamePicture s s') : ∃ analysis encode encode',
      plan.commands = [analysis, encode] ∧ plan'.commands = [analysis, encode'] := by
  obtain ⟨fix, hfix, hcommands⟩ := Profile.exists_commands_of_twoPass hs h
  obtain ⟨fix', hfix', hcommands'⟩ := Profile.exists_commands_of_twoPass hs' h'
  rw [Profile.evenFix_congr hsame.evenFix] at hfix
  obtain rfl : fix = fix' := Except.ok.inj (hfix.symm.trans hfix')
  rw [Profile.passes, List.map_cons, List.map_singleton] at hcommands hcommands'
  rw [hsame.command_eq fix input plan.output plan'.output] at hcommands
  exact ⟨_, _, _, hcommands, hcommands'⟩

/-- Sound, container and directory are others, and the name of the output follows. -/
theorem analysis_of_samePicture_hevc :
    let p := Builtin.hevc
    let s := p.defaultSettings
    let s' := ((s.insert "volume" (.text "1.5,dynaudnorm")).insert "audio_codec" (.text "aac")).insert
      Key.container (.text "mkv")
    let input := Path.ofString "a.mov"
    s.get? Key.passes = some (.text "Two-Pass") ∧ s'.get? Key.passes = some (.text "Two-Pass") ∧
      p.SamePicture s s' ∧
      ∃ plan plan' analysis encode encode', p.plan s input (.ofString "out") = .ok plan ∧
        p.plan s' input (.ofString "/srv") = .ok plan' ∧ plan.commands = [analysis, encode] ∧
        plan'.commands = [analysis, encode'] := by
  intro p s s' input
  have hs : s.get? Key.passes = some (.text "Two-Pass") := by decide +kernel
  have hs' : s'.get? Key.passes = some (.text "Two-Pass") := by decide +kernel
  have hsame : p.SamePicture s s' := ⟨by decide +kernel, by decide +kernel⟩
  obtain ⟨plan, h⟩ : ∃ plan, p.plan s input (.ofString "out") = .ok plan :=
    exists_ok_of_isOk (by decide +kernel)
  obtain ⟨plan', h'⟩ : ∃ plan, p.plan s' input (.ofString "/srv") = .ok plan :=
    exists_ok_of_isOk (by decide +kernel)
  obtain ⟨analysis, encode, encode', hcommands, hcommands'⟩ :=
    analysis_of_samePicture hs hs' h h' hsame
  exact ⟨hs, hs', hsame, plan, plan', analysis, encode, encode', h, h', hcommands, hcommands'⟩

end Transcode
