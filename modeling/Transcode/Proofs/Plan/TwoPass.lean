import Transcode.Proofs.Plan.Layout
import Transcode.Proofs.Plan.Visible

/-! # Two passes

Two passes are one pass, gone through twice with a marker: the analysis breaks off after the vendor's
parameters, and the encoding goes on as the one pass does. -/

namespace Transcode

theorem PassMode.ofSetting_display (mode : PassMode) :
    PassMode.ofSetting (some (.text mode.display)) = .ok mode := by
  cases mode <;> simp [PassMode.ofSetting, PassMode.display]

namespace Profile

variable {p : Profile} {s s' : Settings}

/-- The arguments before the vendor's parameters. They end with the video options. -/
def front (p : Profile) (s : Settings) (lead : List Argument) : List Argument :=
  lead ++ [.bare "-c:v", .bare p.videoCodec] ++
    ((Buckets.sort s p.parameters).words .videoCodecOption).map .bare

/-- A plan of two passes, told from the plan of one pass: both passes share its front, with a marker
at the vendor's clause, and the second has its end. -/
structure TwicePassed (p : Profile) (s : Settings) (one two : Plan) (lead : List Argument)
    (clause analysis encode sound : List Argument) : Prop where
  modes : one.mode = .onePass ∧ two.mode = .twoPass
  once : one.commands =
    [⟨encoderProgram, p.front s lead ++ clause ++ sound ++ [⟨one.output.bytes, true⟩]⟩]
  twice : two.commands =
    [⟨encoderProgram, p.front s lead ++ analysis ++ ["-an", "-f", "null", nullTarget].map .bare⟩,
      ⟨encoderProgram, p.front s lead ++ encode ++ sound ++ [⟨two.output.bytes, true⟩]⟩]
  vendor : VendorClause p ((Buckets.sort s p.parameters).words .vendorSpecialOption) clause
  first : Marked p "1" clause analysis
  second : Marked p "2" clause encode

/-! ## The setting for the passes -/

/-- Nothing that is rendered is stored under the key of the pass mode, for that is the key of another
parameter. -/
theorem IsConsistent.key_ne_passes (hp : p.IsConsistent) {q : Parameter} (hq : q ∈ p.parameters)
    (hc : q.context ≠ .metadata) : q.key ≠ Key.passes := by
  intro hk
  obtain ⟨q', hq', hk', hc'⟩ := hp.passes
  obtain rfl : q = q' := List.inj_on_of_nodup_map hp.keys hq hq' (hk.trans hk'.symm)
  exact hc hc'

theorem rendering_insert_passes (hp : p.IsConsistent) (s : Settings) (v : Setting)
    (fix : Option EvenFix) :
    p.rendering (s.insert Key.passes v) fix = p.rendering s fix := by
  refine rendering_congr (fun c hc q hq hqc => ?_) fix
  exact s.renderable_insert_of_ne (hp.key_ne_passes hq (hqc ▸ hc)).symm v

theorem container_insert_passes (s : Settings) (v : Setting) :
    p.container (s.insert Key.passes v) = p.container s :=
  container_congr (s.renderable_insert_of_ne (by decide) v)

theorem evenFix_insert_passes (s : Settings) (v : Setting) :
    p.evenFix (s.insert Key.passes v) = p.evenFix s :=
  evenFix_congr fun _ => s.renderable_insert_of_ne (by decide) v

theorem shownQuality_insert_passes (h : p.qualityKey ≠ Key.passes) (s : Settings) (v : Setting) :
    p.shownQuality (s.insert Key.passes v) = p.shownQuality s := by
  simp only [shownQuality, s.renderable_insert_of_ne h.symm v]

/-! ## The commands of the passes -/

theorem command_eq (p : Profile) (s : Settings) (fix : Option EvenFix) (input output : Path)
    (pass : Pass) :
    p.command (p.rendering s fix) input output pass = ⟨encoderProgram,
      p.front s ([.bare "-y", .bare "-i", ⟨input.bytes, true⟩] ++
          joinedOption "-vf" "," (p.videoFilters s fix)) ++
        (p.passOption pass ++ p.vendorOption (p.rendering s fix) pass) ++
        closingArguments (p.rendering s fix) output pass⟩ := by
  simp only [command, videoArguments, front, rendering, words_sort_arguments, List.append_assoc]

/-- The plans of both modes for what the same settings render. -/
theorem twicePassed_command (hp : p.IsConsistent) (s : Settings) (fix : Option EvenFix)
    (input output output' : Path) : ∃ lead clause analysis encode sound,
      p.TwicePassed s
        ⟨.onePass, output, (passes .onePass).map (p.command (p.rendering s fix) input output)⟩
        ⟨.twoPass, output', (passes .twoPass).map (p.command (p.rendering s fix) input output')⟩
        lead clause analysis encode sound := by
  have hvendor := vendorClause_vendorOption hp s fix
  rw [← p.words_sort_of_isJoined s rfl] at hvendor
  have hfirst : Pass.analysis.number? = some "1" := rfl
  have hsecond : Pass.encode.number? = some "2" := rfl
  refine ⟨[.bare "-y", .bare "-i", ⟨input.bytes, true⟩] ++
      joinedOption "-vf" "," (p.videoFilters s fix), _, _, _,
    joinedOption "-af" "," (p.rendering s fix).audioFilters ++
      (p.rendering s fix).audioSelector.map .bare ++ (p.rendering s fix).audioOptions.map .bare,
    ⟨rfl, rfl⟩, ?_, ?_, hvendor, marked_vendorOption hp (p.rendering s fix) hfirst,
    marked_vendorOption hp (p.rendering s fix) hsecond⟩
  · have hnone : p.passOption .single = [] := rfl
    simp only [passes, List.map_cons, List.map_nil, command_eq, closingArguments, hnone,
      List.nil_append, List.append_assoc]
  · simp only [passes, List.map_cons, List.map_nil, command_eq, closingArguments,
      List.append_assoc]

end Profile

/-- Settings for two passes have a plan with the commands of one pass, gone through twice and marked,
and with an output that is named for two passes. -/
theorem plan_twicePassed {ps : List Profile} {r : Registry} {p : Profile} {s : Settings}
    {input directory : Path} {two : Plan} (hr : Registry.ofProfiles ps = .ok r)
    (hp : p ∈ r.profiles) (hs : s.get? Key.passes = some (.text "Two-Pass"))
    (h : p.plan s input directory = .ok two) :
    let s' := s.insert Key.passes (.text "One-Pass")
    ∃ one container lead clause analysis encode sound,
      p.plan s' input directory = .ok one ∧
      p.TwicePassed s one two lead clause analysis encode sound ∧
      s.renderable Key.container = some container ∧
      one.output = directory.join (.ofString (input.shownStem ++ "_" ++ p.name ++ "_q" ++
        p.shownQuality s' ++ "_1pass." ++ container.display)) ∧
      two.output = directory.join (.ofString (input.shownStem ++ "_" ++ p.name ++ "_q" ++
        p.shownQuality s ++ "_2pass." ++ container.display)) ∧
      (p.qualityKey ≠ Key.passes → p.shownQuality s' = p.shownQuality s) := by
  intro s'
  have hc : p.IsConsistent := Registry.isConsistent_of_mem hr hp
  obtain ⟨mode, container, fix, hmode, hcontainer, hfix, rfl⟩ := Profile.plan_eq_ok_iff.mp h
  obtain ⟨v, hv, rfl⟩ := Profile.display_of_container hcontainer
  obtain rfl : PassMode.twoPass = mode :=
    Except.ok.inj ((PassMode.ofSetting_display .twoPass).symm.trans (hs ▸ hmode))
  have hmode' : PassMode.ofSetting (s'.get? Key.passes) = .ok .onePass := by
    rw [Keyed.get?_insert, if_pos rfl]
    exact PassMode.ofSetting_display .onePass
  have hone : p.plan s' input directory = .ok _ := Profile.plan_eq_ok_iff.mpr
    ⟨.onePass, v.display, fix, hmode', (Profile.container_insert_passes s _).trans hcontainer,
      (Profile.evenFix_insert_passes s _).trans hfix, rfl⟩
  rw [Profile.rendering_insert_passes hc] at hone
  obtain ⟨lead, clause, analysis, encode, sound, htwice⟩ :=
    Profile.twicePassed_command hc s fix input
      (p.outputPath s' input directory .onePass v.display)
      (p.outputPath s input directory .twoPass v.display)
  refine ⟨_, v, lead, clause, analysis, encode, sound, hone, htwice, hv, ?_, ?_, ?_⟩
  · rw [Profile.outputPath, Profile.outputName_onePass]
  · rw [Profile.outputPath, Profile.outputName_twoPass]
  · exact fun hq => Profile.shownQuality_insert_passes hq s _

/-- The settings that an encoder starts with. It marks its passes in the vendor's parameters, of
which there are no others. -/
theorem plan_twicePassed_hevc :
    let p := Builtin.hevc
    let s := p.defaultSettings
    let input := Path.ofString "a.mov"
    let directory := Path.ofString "out"
    let front := ["-c:v", "libx265", "-crf", "23", "-preset", "medium", "-pix_fmt", "yuv420p"]
    let command (words : List String) : Command := ⟨Text.Utf8.encode "ffmpeg",
      [.bare "-y", .bare "-i", .inQuotes "a.mov"] ++ (front ++ words).map .bare⟩
    let codec := ["-c:a", "libopus", "-b:a", "128k"]
    let one : Plan := ⟨.onePass, .ofString "out/a_hevc_q23_1pass.mp4",
      [(command codec).push (.inQuotes "out/a_hevc_q23_1pass.mp4")]⟩
    let two : Plan := ⟨.twoPass, .ofString "out/a_hevc_q23_2pass.mp4",
      [command ["-x265-params", "pass=1", "-an", "-f", "null", "/dev/null"],
        (command (["-x265-params", "pass=2"] ++ codec)).push (.inQuotes "out/a_hevc_q23_2pass.mp4")]⟩
    s.get? Key.passes = some (.text "Two-Pass") ∧ p.plan s input directory = .ok two ∧
      p.plan (s.insert Key.passes (.text "One-Pass")) input directory = .ok one ∧
      ∃ lead sound, p.TwicePassed s one two lead [] [.bare "-x265-params", .bare "pass=1"]
        [.bare "-x265-params", .bare "pass=2"] sound := by
  intro p s input directory front command codec one two
  have hs : s.get? Key.passes = some (.text "Two-Pass") := by decide +kernel
  have htwo : p.plan s input directory = .ok two := by decide +kernel
  have hone : p.plan (s.insert Key.passes (.text "One-Pass")) input directory = .ok one := by
    decide +kernel
  have hgroup : (Buckets.sort s p.parameters).words .vendorSpecialOption = [] := by decide +kernel
  obtain ⟨one', container, lead, clause, analysis, encode, sound, hone', htwice, -⟩ :=
    plan_twicePassed ofProfiles_builtinProfiles (by simp [Registry.builtin, builtinProfiles, p]) hs
      htwo
  obtain rfl : one = one' := Except.ok.inj (hone.symm.trans hone')
  obtain rfl := VendorClause.unique (hgroup ▸ htwice.vendor) .absent
  obtain rfl := Marked.unique htwice.first (.alone rfl rfl)
  obtain rfl := Marked.unique htwice.second (.alone rfl rfl)
  exact ⟨hs, htwo, hone, lead, sound, htwice⟩

end Transcode
