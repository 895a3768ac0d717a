import Transcode.Proofs.Path
import Transcode.Proofs.Plan.Faults
import Transcode.Proofs.Plan.Visible
import Transcode.Proofs.Text.Utf8
import Transcode.Proofs.Validation.Accepted
import Transcode.Proofs.Validation.Stored

/-! # Names of outputs

An output has a name of its own below the output directory. It starts with what is shown of the
input's stem, and the underscore that comes next keeps it from being the name of the input. -/

namespace Transcode

open Text (Bytes)
open Text.Utf8 (encode lossy)

/-! ## What is shown of a stem -/

/-- What is shown of an input's stem: its file name up to the last dot, or all of it if nothing stands
before that dot, and a word of its own if there is no file name. -/
inductive Path.ShowsStem (input : Path) : String → Prop where
  | nameless : input.fileName? = none → ShowsStem input "output"
  | undotted {name : Bytes} : input.fileName? = some name → dot ∉ name →
      ShowsStem input (lossy name)
  | hidden {after : Bytes} : input.fileName? = some (dot :: after) → dot ∉ after →
      ShowsStem input (lossy (dot :: after))
  | dotted {before after : Bytes} : input.fileName? = some (before ++ dot :: after) → before ≠ [] →
      dot ∉ after → ShowsStem input (lossy before)

theorem Path.shownStem_of_nameless {input : Path} (h : input.fileName? = none) :
    input.shownStem = "output" := by
  rw [shownStem, stem?, h]
  rfl

theorem Path.shownStem_of_fileName? {input : Path} {name : Bytes} (h : input.fileName? = some name) :
    input.shownStem = lossy (splitExtension name).1 := by
  rw [shownStem, stem?, h]
  rfl

theorem Path.ShowsStem.shownStem_eq {input : Path} {stem : String} (h : input.ShowsStem stem) :
    input.shownStem = stem := by
  cases h with
  | nameless hname => exact shownStem_of_nameless hname
  | undotted hname hdot => rw [shownStem_of_fileName? hname, splitExtension_of_notMem hdot]
  | hidden hname hafter =>
    rw [shownStem_of_fileName? hname, ← List.nil_append (dot :: _),
      splitExtension_append_cons hafter, if_pos rfl]
    rfl
  | dotted hname hbefore hafter =>
    rw [shownStem_of_fileName? hname, splitExtension_append_cons hafter, if_neg hbefore]

theorem Path.showsStem_shownStem (input : Path) : input.ShowsStem input.shownStem := by
  cases hname : input.fileName? with
  | none =>
    rw [shownStem_of_nameless hname]
    exact .nameless hname
  | some name =>
    rw [shownStem_of_fileName? hname]
    by_cases hdot : dot ∈ name
    · obtain ⟨before, after, rfl, hafter⟩ := exists_last_dot hdot
      rw [splitExtension_append_cons hafter]
      by_cases hbefore : before = []
      · subst hbefore
        exact .hidden hname hafter
      · rw [if_neg hbefore]
        exact .dotted hname hbefore hafter
    · rw [splitExtension_of_notMem hdot]
      exact .undotted hname hdot

theorem Path.shownStem_eq_iff {input : Path} {stem : String} :
    input.shownStem = stem ↔ input.ShowsStem stem := by
  refine ⟨?_, ShowsStem.shownStem_eq⟩
  rintro rfl
  exact input.showsStem_shownStem

/-! ## Parts of a name -/

theorem Path.slash_notMem_shownStem (input : Path) : slash ∉ encode input.shownStem := by
  intro h
  rw [shownStem] at h
  split at h
  · rename_i stem hstem
    exact slash_notMem_of_stem? hstem
      (Text.Utf8.mem_of_mem_encode_lossy (by decide) (by decide) h)
  · exact absurd h (by decide)

/-- What follows the stem in the name of an output. -/
def Profile.nameEnd (p : Profile) (s : Settings) (mode : PassMode) (container : String) : String :=
  p.name ++ "_q" ++ p.shownQuality s ++ "_" ++ mode.suffix ++ "." ++ container

theorem Profile.outputName_eq (p : Profile) (s : Settings) (input : Path) (mode : PassMode)
    (container : String) :
    p.outputName s input mode container =
      input.shownStem ++ ("_" ++ p.nameEnd s mode container) := by
  simp [outputName, nameEnd, String.append_assoc]

/-- The byte between the stem and the rest of a name. -/
def underscore : UInt8 := 0x5F

theorem encode_underscore_append (s : String) : encode ("_" ++ s) = underscore :: encode s := by
  rw [Text.Utf8.encode_append]
  rfl

/-- The first part of a name is not idle and leads to no other directory, since it has an
underscore. -/
theorem ofPart_append_underscore (stem after : Bytes) :
    Path.isIdle (stem ++ underscore :: after) = false ∧
      Path.Component.ofPart (stem ++ underscore :: after) =
        .name (stem ++ underscore :: after) := by
  have hmem : underscore ∈ stem ++ underscore :: after := by simp
  have hne (bytes : Bytes) (h : underscore ∉ bytes) : stem ++ underscore :: after ≠ bytes := by
    rintro rfl
    exact h hmem
  constructor
  · simp only [Path.isIdle, Bool.or_eq_false_iff, beq_eq_false_iff_ne]
    exact ⟨hne [] (by decide), hne _ (by decide)⟩
  · rw [Path.Component.ofPart, if_neg (hne _ (by decide))]

theorem Profile.output_of_plan {p : Profile} {s : Settings} {input directory : Path} {plan : Plan}
    (h : p.plan s input directory = .ok plan) : ∃ container,
      PassMode.ofSetting (s.get? Key.passes) = .ok plan.mode ∧ p.container s = .ok container ∧
        plan.output = p.outputPath s input directory plan.mode container := by
  obtain ⟨mode, container, fix, hmode, hcontainer, -, hplan⟩ := plan_eq_ok_iff.mp h
  rw [hplan]
  dsimp only
  exact ⟨container, hmode, hcontainer, rfl⟩

/-! ## The name of the input -/

/-- A text that goes on with an underscore after what is shown of a stem is no name with that stem: a
file name ends there, or goes on with a dot. -/
theorem Path.fileName?_ne_of_shownStem (input : Path) (after : String) :
    input.fileName? ≠ some (encode (input.shownStem ++ ("_" ++ after))) := by
  intro h
  generalize htext : input.shownStem ++ ("_" ++ after) = text at h
  have hstem := shownStem_of_fileName? h
  have hchars : input.shownStem.toList ++ '_' :: after.toList = text.toList := by
    rw [← htext]
    simp
  rcases splitExtension_cases (encode text) with hwhole | ⟨rest, hcut⟩
  · rw [hstem, hwhole, Text.Utf8.lossy_encode] at hchars
    simp at hchars
  · have hshown := Text.Utf8.toList_lossy_append_cons (splitExtension (encode text)).1
      (b := dot) (by decide) rest
    rw [← hcut, Text.Utf8.lossy_encode, ← hstem, ← hchars] at hshown
    have hnext : '_' = Char.ofNat dot.toNat := (List.cons.inj (List.append_cancel_left hshown)).1
    exact absurd hnext (by decide)

/-! ## Names without slashes -/

/-- What the profile and the settings contribute to the names of outputs holds no slash. -/
structure Profile.NamesPlainly (p : Profile) (s : Settings) : Prop where
  name : '/' ∉ p.name.toList
  quality : '/' ∉ (p.shownQuality s).toList
  container : ∀ v, s.renderable Key.container = some v → '/' ∉ v.display.toList

theorem slash_notMem_encode {s : String} (h : '/' ∉ s.toList) : Path.slash ∉ encode s :=
  fun hmem => h (Text.Utf8.ofNat_mem_of_mem_encode (by decide) hmem)

theorem Profile.NamesPlainly.slash_notMem_outputName {p : Profile} {s : Settings}
    (h : p.NamesPlainly s) {v : Setting} (hv : s.renderable Key.container = some v) (input : Path)
    (mode : PassMode) : Path.slash ∉ encode (p.outputName s input mode v.display) := by
  have hmark : Path.slash ∉ encode "_" ∧ Path.slash ∉ encode "_q" ∧ Path.slash ∉ encode "." := by
    decide
  have hsuffix : Path.slash ∉ encode mode.suffix := by cases mode <;> decide
  have hstem := input.slash_notMem_shownStem
  have hname := slash_notMem_encode h.name
  have hquality := slash_notMem_encode h.quality
  have hcontainer := slash_notMem_encode (h.container v hv)
  simp only [outputName, Text.Utf8.encode_append, List.mem_append]
  tauto

/-- Whether no text that a kind accepts holds a slash. -/
def Kind.isSlashless : Kind → Bool
  | .direct (.int _ _) => true
  | .choice choices => choices.all fun c => !c.value.toList.contains '/'
  | .direct _ | .scale => false

theorem Kind.slash_notMem_of_check {k : Kind} (hk : k.isSlashless = true) {value : String}
    (h : k.check value = .ok ()) : '/' ∉ value.toList := by
  intro hslash
  cases k with
  | direct range =>
    cases range with
    | int min max =>
      obtain ⟨n, hn, -⟩ := checkTrimmed_int_eq_ok_iff.mp h
      have hmem : '/' ∈ (Text.trim value).toList := by
        rw [Text.trim, String.toList_ofList]
        exact Text.mem_trimChars (by decide) hslash
      rcases Number.mem_of_integer? (Number.integer?_of_int64? hn) hmem with hsign | hsign | hdigit
      · cases hsign
      · cases hsign
      · cases hdigit
    | float | kbps | oneOf | any => cases hk
  | choice choices =>
    obtain ⟨c, hc, rfl⟩ := checkValue_eq_ok_iff.mp h
    have hplain := List.all_eq_true.mp hk c hc
    simp [hslash] at hplain
  | scale => cases hk

/-- The built-in profiles name their outputs without slashes if nothing is wrong with the settings. -/
theorem namesPlainly_builtin {p : Profile} {s : Settings} (hp : p ∈ builtinProfiles)
    (hs : p.storedFaults s = []) : p.NamesPlainly s := by
  have htables : ∀ p ∈ builtinProfiles, '/' ∉ p.name.toList ∧
      (∃ q ∈ p.parameters, q.key = p.qualityKey ∧ q.kind.isSlashless = true) ∧
      ∃ q ∈ p.parameters, q.key = Key.container ∧ q.kind.isSlashless = true := by
    decide +kernel
  have hvalue {key : String} (hkey : ∃ q ∈ p.parameters, q.key = key ∧ q.kind.isSlashless = true)
      {v : Setting} (hv : s.renderable key = some v) : '/' ∉ v.display.toList := by
    obtain ⟨q, hq, rfl, hkind⟩ := hkey
    obtain ⟨hstored, hrendered⟩ := Settings.renderable_eq_some_iff.mp hv
    have htaken := Profile.storedFaults_eq_nil_iff.mp hs q hq v hstored
    exact Kind.slash_notMem_of_check hkind (htaken.resolve_left hrendered)
  obtain ⟨hname, hquality, hcontainer⟩ := htables p hp
  refine ⟨hname, ?_, fun v hv => hvalue hcontainer hv⟩
  rw [Profile.shownQuality]
  split
  · rename_i v hv
    exact hvalue hquality hv
  · decide

/-! ## Outputs and inputs -/

/-- Where the output of an input is, and what it is called. -/
structure Path.IsNamed (output : Path) (name : String) (input directory : Path) (mode : PassMode)
    (container : String) : Prop where
  below : output = directory.join (.ofString name)
  single : output.components = directory.components ++ [.name (encode name)]
  stem : ∀ stem, input.stem? = some stem → ∃ rest, name = lossy stem ++ "_" ++ rest
  stemless : input.fileName? = none → ∃ rest, name = "output_" ++ rest
  shown : ∃ shown rest, input.ShowsStem shown ∧ name = shown ++ "_" ++ rest
  ending : match mode with
    | .onePass => ∃ first, name = first ++ "_1pass." ++ container
    | .twoPass => ∃ first, name = first ++ "_2pass." ++ container
  fresh : input.fileName? ≠ some (encode name)

theorem Profile.NamesPlainly.isNamed {p : Profile} {s : Settings} {v : Setting}
    (hs : p.NamesPlainly s) (hv : s.renderable Key.container = some v) (input directory : Path)
    (mode : PassMode) :
    (p.outputPath s input directory mode v.display).IsNamed
      (p.outputName s input mode v.display) input directory mode v.display := by
  have hname := p.outputName_eq s input mode v.display
  constructor
  case below => rfl
  case single =>
    obtain ⟨hidle, hpart⟩ := ofPart_append_underscore (encode input.shownStem)
      (encode (p.nameEnd s mode v.display))
    have hbytes : encode (p.outputName s input mode v.display) =
        encode input.shownStem ++ underscore :: encode (p.nameEnd s mode v.display) := by
      rw [hname, Text.Utf8.encode_append, encode_underscore_append]
    rw [← hbytes] at hidle hpart
    rw [← hpart, outputPath, Path.ofString]
    exact Path.components_join_of_name (hs.slash_notMem_outputName hv input mode) hidle directory
  case stem =>
    intro stem hinput
    refine ⟨p.nameEnd s mode v.display, ?_⟩
    rw [hname, Path.shownStem, hinput, String.append_assoc]
  case stemless =>
    intro hinput
    refine ⟨p.nameEnd s mode v.display, ?_⟩
    rw [hname, Path.shownStem_of_nameless hinput, ← String.append_assoc]
    rfl
  case shown =>
    refine ⟨_, p.nameEnd s mode v.display, input.showsStem_shownStem, ?_⟩
    rw [hname, String.append_assoc]
  case ending =>
    cases mode with
    | onePass => exact ⟨_, p.outputName_onePass s input v.display⟩
    | twoPass => exact ⟨_, p.outputName_twoPass s input v.display⟩
  case fresh =>
    rw [hname]
    exact input.fileName?_ne_of_shownStem _

theorem Path.IsNamed.components_ne {output input directory : Path} {name container : String}
    {mode : PassMode} (h : output.IsNamed name input directory mode container) :
    output.components ≠ input.components := by
  intro hsame
  exact h.fresh (fileName?_of_components (hsame ▸ h.single))

/-- Texts that end with different numbers of passes are different. -/
theorem ending_ne (first first' container : String) :
    first ++ "_1pass." ++ container ≠ first' ++ "_2pass." ++ container := by
  intro h
  have hchars := congrArg String.toList h
  simp only [String.toList_append] at hchars
  have hlength : "_1pass.".toList.length = "_2pass.".toList.length := by decide +kernel
  have hmarks := List.append_inj_right' (List.append_cancel_right hchars) hlength
  exact absurd hmarks (by decide +kernel)

/-- Below one directory, the number of passes tells two outputs apart. -/
theorem Path.IsNamed.mode_eq {output output' input input' directory : Path}
    {name name' container : String} {mode mode' : PassMode}
    (h : output.IsNamed name input directory mode container)
    (h' : output'.IsNamed name' input' directory mode' container)
    (hsame : output.components = output'.components) : mode = mode' := by
  obtain rfl : name = name' := by
    rw [h.single, h'.single] at hsame
    simpa [Text.Utf8.encode_inj] using hsame
  have hending := h.ending
  have hending' := h'.ending
  cases mode <;> cases mode'
  case onePass.onePass | twoPass.twoPass => rfl
  case onePass.twoPass =>
    obtain ⟨first, hfirst⟩ := hending
    obtain ⟨first', hfirst'⟩ := hending'
    exact absurd (hfirst.symm.trans hfirst') (ending_ne first first' container)
  case twoPass.onePass =>
    obtain ⟨first, hfirst⟩ := hending
    obtain ⟨first', hfirst'⟩ := hending'
    exact absurd (hfirst'.symm.trans hfirst) (ending_ne first' first container)

/-- Settings that differ in the number of passes name their outputs without slashes if one of them
does. -/
theorem Profile.NamesPlainly.of_passes {p : Profile} {s s' : Settings} (hs : p.NamesPlainly s)
    (hsame : ∀ key, key ≠ Key.passes → s'.renderable key = s.renderable key) {mode : PassMode}
    (hmode : PassMode.ofSetting (s'.get? Key.passes) = .ok mode) : p.NamesPlainly s' := by
  refine ⟨hs.name, ?_, ?_⟩
  · by_cases hkey : p.qualityKey = Key.passes
    · rw [shownQuality, hkey, Settings.renderable]
      rcases PassMode.exists_ofSetting_iff.mp ⟨mode, hmode⟩ with hv | hv | ⟨word, hword, hv⟩
      · rw [hv]
        decide
      · rw [hv]
        decide
      · rw [hv]
        simp only [PassMode.words, List.mem_cons, List.not_mem_nil, or_false] at hword
        rcases hword with rfl | rfl <;> decide
    · have hquality := hs.quality
      rwa [shownQuality, ← hsame p.qualityKey hkey] at hquality
  · rw [hsame Key.container (by decide)]
    exact hs.container

theorem Profile.exists_layout_eq (p : Profile) (b : Buckets) (filters : List String)
    (clause : List Argument) (input output : Path) : ∃ middle,
      p.layout b filters clause input output =
        .bare "-y" :: .bare "-i" :: ⟨input.bytes, true⟩ :: (middle ++ [⟨output.bytes, true⟩]) :=
  ⟨_, rfl⟩

/-- The last command of a plan reads the input and writes the output. -/
theorem Profile.exists_values_getLast? {p : Profile} {s : Settings} {input directory : Path}
    {plan : Plan} (h : p.plan s input directory = .ok plan) :
    ∃ c between, plan.commands.getLast? = some c ∧
      c.values = encode "-y" :: encode "-i" :: input.bytes :: (between ++ [plan.output.bytes]) := by
  obtain ⟨fix, pass, -, hlast⟩ := exists_layout_getLast? h
  obtain ⟨middle, hlayout⟩ := p.exists_layout_eq (Buckets.sort s p.parameters)
    (p.videoFilters s fix) (p.passOption pass ++ p.vendorOption (p.rendering s fix) pass) input
    plan.output
  refine ⟨_, middle.map (·.value), hlast, ?_⟩
  rw [Command.values, hlayout]
  simp [Argument.bare]

/-- The output of a plan has a name of its own below the output directory, which is neither that of
the input nor that of the output with the other number of passes. -/
structure Profile.NamesApart (p : Profile) (s : Settings) (input directory : Path) (plan : Plan) :
    Prop where
  plainly : p.NamesPlainly s
  modes : plan.mode = .twoPass ↔ s.get? "passes" = some (.text "Two-Pass")
  named : ∃ v name, s.renderable Key.container = some v ∧
    plan.output.IsNamed name input directory plan.mode v.display
  written : ∃ c between, plan.commands.getLast? = some c ∧
    c.values = encode "-y" :: encode "-i" :: input.bytes :: (between ++ [plan.output.bytes])
  source : plan.output.components ≠ input.components
  passes : ∀ s' plan', (∀ key, key ≠ Key.passes → s'.get? key = s.get? key) →
    p.plan s' input directory = .ok plan' → plan'.mode ≠ plan.mode →
    plan'.output.components ≠ plan.output.components

/-- No output overwrites its input, whatever the directory, nor the output of the same settings with
another number of passes, if nothing that is part of the names holds a slash. That is so for the
built-in profiles if nothing is wrong with the settings. -/
theorem plan_namesApart {p : Profile} {s : Settings} {input directory : Path} {plan : Plan}
    (h : p.plan s input directory = .ok plan)
    (hs : p.NamesPlainly s ∨ p ∈ builtinProfiles ∧ p.storedFaults s = []) :
    p.NamesApart s input directory plan := by
  have hplain : p.NamesPlainly s := by
    rcases hs with hs | ⟨hp, hs⟩
    · exact hs
    · exact namesPlainly_builtin hp hs
  obtain ⟨container, hpasses, hcontainer, houtput⟩ := Profile.output_of_plan h
  obtain ⟨v, hv, rfl⟩ := Profile.display_of_container hcontainer
  have hnamed := hplain.isNamed hv input directory plan.mode
  rw [← houtput] at hnamed
  have hmodes : plan.mode = .twoPass ↔ s.get? "passes" = some (.text "Two-Pass") := by
    rw [← PassMode.ofSetting_eq_twoPass_iff]
    exact ⟨fun htwo => htwo ▸ hpasses, fun htwo => Except.ok.inj (hpasses.symm.trans htwo)⟩
  refine ⟨hplain, hmodes, ⟨v, _, hv, hnamed⟩, Profile.exists_values_getLast? h,
    hnamed.components_ne, ?_⟩
  intro s' plan' hsame h' hmode hcomponents
  obtain ⟨container', hpasses', hcontainer', houtput'⟩ := Profile.output_of_plan h'
  obtain ⟨v', hv', rfl⟩ := Profile.display_of_container hcontainer'
  have hrenderable (key : String) (hkey : key ≠ Key.passes) :
      s'.renderable key = s.renderable key := by
    rw [Settings.renderable, hsame key hkey, Settings.renderable]
  have hvalue : v' = v := by
    rw [hrenderable Key.container (by decide), hv] at hv'
    exact (Option.some.inj hv').symm
  have hnamed' := (hplain.of_passes hrenderable hpasses').isNamed hv' input directory plan'.mode
  rw [← houtput', hvalue] at hnamed'
  exact hmode (hnamed'.mode_eq hnamed hcomponents)

theorem exists_plan_hevc (input directory : Path) :
    ∃ plan, Builtin.hevc.plan Builtin.hevc.defaultSettings input directory = .ok plan := by
  have hmode : PassMode.ofSetting (Builtin.hevc.defaultSettings.get? Key.passes) =
      .ok .twoPass := rfl
  have hcontainer : Builtin.hevc.container Builtin.hevc.defaultSettings = .ok "mp4" := rfl
  have hfix : Builtin.hevc.evenFix Builtin.hevc.defaultSettings = .ok none := rfl
  exact ⟨_, Profile.plan_eq_ok_iff.mpr ⟨.twoPass, "mp4", none, hmode, hcontainer, hfix, rfl⟩⟩

/-- An input in the output directory, called like an output but for a byte that is no text. -/
theorem plan_namesApart_hevc :
    let input : Path := ⟨encode "out/" ++ 0xFF :: encode "_hevc_q23_2pass.mp4"⟩
    ∃ plan, Builtin.hevc.plan Builtin.hevc.defaultSettings input (.ofString "out") = .ok plan ∧
      Builtin.hevc.NamesApart Builtin.hevc.defaultSettings input (.ofString "out") plan ∧
      plan.output = .ofString "out/\uFFFD_hevc_q23_2pass_hevc_q23_2pass.mp4" := by
  intro input
  obtain ⟨plan, h⟩ := exists_plan_hevc input (.ofString "out")
  have hfaults : Builtin.hevc.storedFaults Builtin.hevc.defaultSettings = [] := by decide +kernel
  have houtput : (Builtin.hevc.plan Builtin.hevc.defaultSettings input (.ofString "out")).map
      (·.output) = .ok (.ofString "out/\uFFFD_hevc_q23_2pass_hevc_q23_2pass.mp4") := by
    decide +kernel
  rw [h] at houtput
  exact ⟨plan, h, plan_namesApart h (.inr ⟨by simp [builtinProfiles], hfaults⟩),
    Except.ok.inj houtput⟩

end Transcode
