import Transcode.Proofs.Dialogue
import Transcode.Proofs.Options
import Transcode.Proofs.Plan.Visible
import Transcode.Proofs.Profile.Consistent
import Transcode.Proofs.Program.Outcome
import Transcode.Proofs.Storage

/-! # Saved defaults

What a run works with after an earlier run has saved its settings as the defaults of their profile. -/

namespace Transcode

open World (yields_bind_iff yields_lift_iff yields_pure_iff yields_attempt_iff)

variable {w w' : World} {directory : Path} {inv : Invocation} {c : Config} {p : Profile}
  {o : Options}

/-! ## Settings that were saved -/

namespace Settings

/-- What settings have become in the next run after they were saved: they are read back, and a fix
that is missing is chosen anew. -/
def resumed (p : Profile) (s : Settings) : Settings :=
  s.reread.seeded p

theorem resumed_of_isSome {s : Settings} (h : (s.get? Key.evenFix).isSome = true) :
    s.resumed p = s.reread := by
  have hset : (s.reread.get? Key.evenFix).isNone = false := by
    simpa [Option.isSome_iff_ne_none] using h
  rw [resumed, seeded, hset, Bool.and_false]
  rfl

/-- Where even sizes are needed, settings are resumed as they were exactly if a fix is set and no
text says to leave a parameter alone. -/
theorem resumed_eq_self_iff (hp : p.evenDimensions = true) (s : Settings) :
    s.resumed p = s ↔ (s.get? Key.evenFix).isSome = true ∧
      ∀ key, s.get? key ≠ some (.text Setting.dontChangeText) := by
  rw [← reread_eq_self_iff]
  constructor
  · intro h
    have hfix : (s.get? Key.evenFix).isSome = true := by
      cases hs : s.get? Key.evenFix with
      | some v => rfl
      | none =>
        have hseeded : (s.resumed p).get? Key.evenFix = some (.text EvenFix.pad.value) := by
          simp [resumed, seeded, hp, hs]
        rw [h, hs] at hseeded
        cases hseeded
    exact ⟨hfix, (resumed_of_isSome hfix).symm.trans h⟩
  · rintro ⟨hfix, hs⟩
    exact (resumed_of_isSome hfix).trans hs

theorem renderable_reread {s : Settings} {key : String}
    (h : s.get? key ≠ some (.text Setting.dontChangeText)) :
    s.reread.renderable key = s.renderable key := by
  apply renderable_congr
  rw [get?_reread]
  cases hv : s.get? key with
  | none => rfl
  | some v =>
    rw [Option.map_some, (Setting.reread_eq_self_iff v).mpr]
    rintro rfl
    exact h hv

/-- For plans it is enough that a fix is set and that no such text is stored where plans look. -/
theorem plan_resumed (hp : p.IsConsistent) {s : Settings}
    (hfix : (s.get? Key.evenFix).isSome = true)
    (h : ∀ key, key = Key.evenFix ∨ (∃ q ∈ p.parameters, q.key = key) →
      s.get? key ≠ some (.text Setting.dontChangeText)) (input output : Path) :
    p.plan (s.resumed p) input output = p.plan s input output := by
  have hkey (key : String) (hk : ∃ q ∈ p.parameters, q.key = key) :
      s.reread.renderable key = s.renderable key := renderable_reread (h key (.inr hk))
  obtain ⟨qp, hqp, hpasses, -⟩ := hp.passes
  obtain ⟨qc, hqc, hcontainer, -⟩ := hp.container
  rw [resumed_of_isSome hfix]
  exact Profile.LookAlike.plan_eq ⟨fun q hq => hkey q.key ⟨q, hq, rfl⟩,
    hkey _ ⟨qp, hqp, hpasses⟩, hkey _ ⟨qc, hqc, hcontainer⟩, hkey _ hp.quality,
    fun _ => renderable_reread (h _ (.inl rfl))⟩ input output

end Settings

namespace Batch

/-! ## The run that saves -/

/-- A run that saves defaults leaves the options with these stored. -/
theorem readText_of_prepare {order : Order}
    (h : w.Yields (prepare World.host inv directory) order w') (hs : inv.saveDefaults = true) :
    ∃ o : Options, w'.tree.readText (Document.options.file directory) =
      .ok (o.store order.profile order.settings).text := by
  obtain ⟨o, -, -, -, -, w₅, -, -, -, -, -, -, hsave⟩ := yields_prepare_iff.mp h
  rw [if_pos hs] at hsave
  simp only [saveDefaults, yields_bind_iff, yields_attempt_iff, yields_lift_iff] at hsave
  obtain ⟨_, w₆, hstored, hprinted⟩ := hsave
  cases hprinted
  have hread := Options.readText_of_save hstored
  exact ⟨o, hread⟩

theorem yields_editSettings {s s' : Settings} {script : List String}
    (hscript : w.input.map World.lineText? = script.map some)
    (hdone : ((Editor.dialogue p).feed (Editor.start p s) script).stand = .done (s', [])) :
    ∃ w', w.Yields (editSettings World.host p s) s' w' ∧ w'.tree = w.tree := by
  have hshown := w.foldl_present_resembles (Editor.menuScreen p s none)
  obtain ⟨w', hconverse, htree⟩ := World.converse_eq (by rw [hshown.2, hscript]) hdone
  refine ⟨w', ?_, htree.trans hshown.1⟩
  exact yields_bind_iff.mpr ⟨_, _, World.yields_present _ _, yields_attempt_iff.mpr hconverse⟩

theorem yields_settle {s : Settings} {script : List String} (hskip : inv.skipMenu = false)
    (hscript : w.input.map World.lineText? = script.map some)
    (hdone : ((Editor.dialogue p).feed (Editor.start p ((o.settingsFor p).seeded p)) script).stand =
      .done (s, [])) :
    ∃ w', w.Yields (settle World.host inv o p) s w' ∧ w'.tree = w.tree := by
  simp only [settle, hskip]
  split
  · have hnoted := w.note_resembles .debug ("No stored settings for " ++ p.name ++ ", using defaults")
    obtain ⟨w', hedit, htree⟩ := yields_editSettings (hnoted.2 ▸ hscript) hdone
    refine ⟨w', ?_, htree.trans hnoted.1⟩
    exact yields_bind_iff.mpr ⟨(), _, yields_lift_iff.mpr rfl, hedit⟩
  · exact yields_editSettings hscript hdone

theorem yields_saveDefaults {s : Settings} {file : Path} {t t' : FileTree}
    (hdirectory : w.tree.createDirectories (file.parent?.getD ⟨[]⟩) = (.ok (), t))
    (hfile : t.write file (Text.Utf8.encode (o.store p s).text) = .ok t') :
    ∃ w', w.Yields (saveDefaults World.host file o p s) () w' ∧ w'.tree = t' := by
  have hsave : ((o.store p s).save World.host file).run w = (.ok (), { w with tree := t' }) := by
    rw [Options.save, Document.save_run, hdirectory]
    simp only [hfile]
  refine ⟨_, yields_bind_iff.mpr ⟨(), _, yields_attempt_iff.mpr hsave, yields_lift_iff.mpr rfl⟩, ?_⟩
  rfl

/-! ## The run that asks nothing -/

/-- A run over some inputs that gets as far as its settings without a question, for a profile that it
is told. -/
structure Unattended (inv : Invocation) (directory : Path) (w : World) (c : Config) (p : Profile) :
    Prop where
  configured : ∃ w₁, (Config.load World.host directory).run w = (.ok c, w₁) ∧
    ∃ w₂, w₁.Yields (meetEncoder World.host inv.dryRun) () w₂
  told : Selection.ofRequest Registry.builtin (inv.codec.or c.profile) inv.skipMenu = .settled p
  skipMenu : inv.skipMenu = true
  saveDefaults : inv.saveDefaults = false
  files : inv.files.isEmpty = false

theorem yields_prepare {s : Settings} {w₁ w₂ w₃ w₄ w₅ : World}
    (hconfig : (Config.load World.host directory).run w = (.ok c, w₁))
    (hoptions : (Options.load World.host (Document.options.file directory) Registry.builtin).run w₁ =
      (.ok o, w₂))
    (hencoder : w₂.Yields (meetEncoder World.host inv.dryRun) () w₃)
    (htold : Selection.ofRequest Registry.builtin (inv.codec.or c.profile) inv.skipMenu =
      .settled p) (hfiles : inv.files.isEmpty = false)
    (hsettle : ((w₃.see (.printed windowTitle)).note .info ("Selected profile " ++ p.display)).Yields
      (settle World.host inv o p) s w₄)
    (hsave : if inv.saveDefaults then
      w₄.Yields (saveDefaults World.host (Document.options.file directory) o p s) () w₅
      else w₄ = w₅) :
    w.Yields (prepare World.host inv directory) ⟨c, p, s⟩ w₅ := by
  have hselect (w : World) : w.Yields (selectProfile World.host
      (.ofRequest Registry.builtin (inv.codec.or c.profile) inv.skipMenu)) p w := by
    rw [htold]
    exact yields_pure_iff.mpr ⟨rfl, rfl⟩
  exact yields_prepare_iff.mpr ⟨o, w₁, w₂, w₃, _, w₄, hconfig, hoptions, by simp [hfiles], hencoder,
    hselect _, hsettle, hsave⟩

theorem settle_skipMenu (hskip : inv.skipMenu = true) (o : Options) (p : Profile) (w : World) :
    ∃ w', w.Yields (settle World.host inv o p) ((o.settingsFor p).seeded p) w' := by
  simp only [settle, hskip, if_true]
  split
  · exact ⟨_, rfl⟩
  · exact ⟨w, yields_pure_iff.mpr ⟨rfl, rfl⟩⟩

/-- Such a run works with the settings that are stored for the profile. -/
theorem Unattended.yields_prepare {text : String} (hrun : Unattended inv directory w c p)
    (htext : w.tree.readText (Document.options.file directory) = .ok text)
    (ho : Options.read? text = some o) :
    ∃ w', w.Yields (prepare World.host inv directory)
      ⟨c, p, (o.settingsFor p).seeded p⟩ w' := by
  obtain ⟨w₁, hconfig, w₂, hencoder⟩ := hrun.configured
  have hstill := (Config.extends_of_load hconfig htext).readText htext
  have hoptions := Options.load_of_readText Registry.builtin hstill ho
  obtain ⟨w₃, hsettle⟩ := settle_skipMenu hrun.skipMenu o p
    ((w₂.see (.printed windowTitle)).note .info ("Selected profile " ++ p.display))
  exact ⟨w₃, Batch.yields_prepare hconfig hoptions hencoder hrun.told hrun.files hsettle
    (by simp [hrun.saveDefaults])⟩

/-- A run that asks nothing resumes the settings that another run has saved before. -/
theorem Unattended.resumes {first : Invocation} {order : Order} {w₁ w₂ : World}
    (hp : order.profile ∈ builtinProfiles)
    (hfirst : w.Yields (prepare World.host first directory) order w₁)
    (hsave : first.saveDefaults = true)
    (hfile : w₂.tree.readText (Document.options.file directory) =
      w₁.tree.readText (Document.options.file directory))
    (hrun : Unattended inv directory w₂ c order.profile) :
    ∃ w₃, w₂.Yields (prepare World.host inv directory)
      ⟨c, order.profile, order.settings.resumed order.profile⟩ w₃ := by
  have hname : ∀ p ∈ builtinProfiles, p.isNamed p.name = true := by decide
  obtain ⟨o, hstored⟩ := readText_of_prepare hfirst hsave
  have hresumed := hrun.yields_prepare (hfile.trans hstored) (Options.read?_text _)
  rwa [Options.reread_store, Options.settingsFor_store (hname _ hp)] at hresumed

end Batch

/-- Defaults that a run has saved are what a later run works with that asks nothing, up to two things:
a text that says to leave a parameter alone has become the wish to do so, and a fix that was not set
is the addition of a pixel. So the settings are the same exactly if neither is the case, and then the
plans are. -/
theorem savedDefaults_resumed {first second : Invocation} {order : Batch.Order} {w₁ w₂ : World}
    (hp : order.profile ∈ builtinProfiles)
    (hfirst : w.Yields (Batch.prepare World.host first directory) order w₁)
    (hsave : first.saveDefaults = true)
    (hfile : w₂.tree.readText (Document.options.file directory) =
      w₁.tree.readText (Document.options.file directory))
    (hsecond : Batch.Unattended second directory w₂ c order.profile) :
    let p := order.profile
    let s := order.settings
    (∃ w₃, w₂.Yields (Batch.prepare World.host second directory) ⟨c, p, s.resumed p⟩ w₃) ∧
    (s.resumed p = s ↔ (s.get? Key.evenFix).isSome = true ∧
      ∀ key, s.get? key ≠ some (.text Setting.dontChangeText)) ∧
    ((s.get? Key.evenFix).isSome = true →
      (∀ key, key = Key.evenFix ∨ (∃ q ∈ p.parameters, q.key = key) →
        s.get? key ≠ some (.text Setting.dontChangeText)) →
      ∀ input output, p.plan (s.resumed p) input output = p.plan s input output) := by
  intro p s
  have heven : ∀ p ∈ builtinProfiles, p.evenDimensions = true := by decide
  exact ⟨hsecond.resumes hp hfirst hsave hfile, Settings.resumed_eq_self_iff (heven p hp) s,
    fun hfix hs => Settings.plan_resumed (Registry.isConsistent_builtin hp) hfix hs⟩

/-! ## Two runs on a small machine -/

/-- Files with an empty configuration, and with options that hold no settings. -/
def FileTree.configured : FileTree where
  entries := [([Text.Utf8.encode "cfg"], .directory),
    ([Text.Utf8.encode "cfg", Text.Utf8.encode "config.toml"], .file []),
    ([Text.Utf8.encode "cfg", Text.Utf8.encode "options.json"],
      .file (Text.Utf8.encode "\x7b\x7d"))]
  current := []
  unique := by decide
  placed := by
    intro e he
    simp only [List.mem_cons, List.not_mem_nil, or_false] at he
    rcases he with rfl | rfl | rfl
    · exact ⟨[], _, rfl, by decide, .inl rfl⟩
    · exact ⟨[Text.Utf8.encode "cfg"], _, rfl, by decide, .inr (by simp)⟩
    · exact ⟨[Text.Utf8.encode "cfg"], _, rfl, by decide, .inr (by simp)⟩

/-- A machine with these files and with lines that wait. -/
def World.waiting (lines : List String) : World :=
  ⟨.configured, none, lines.map Text.Utf8.encode, fun _ => none, 0, []⟩

/-- A dry run over one input, which either saves the defaults that it asks for or asks nothing. -/
def Invocation.dry (save : Bool) : Invocation where
  files := [.ofString "a.mp4"]
  subcommand := none
  codec := some "hevc"
  outputDirectory := none
  configDirectory := some (.ofString "cfg")
  skipMenu := !save
  dryRun := true
  saveDefaults := save
  noOpen := true
  verbosity := 0

theorem FileTree.write_configured (contents : Text.Bytes) :
    ∃ t, FileTree.configured.write (Document.options.file (.ofString "cfg")) contents = .ok t ∧
      t.readText (Document.config.file (.ofString "cfg")) = .ok "" := by
  let options := [Text.Utf8.encode "cfg", Text.Utf8.encode "options.json"]
  let config := [Text.Utf8.encode "cfg", Text.Utf8.encode "config.toml"]
  have hoptions : FileTree.configured.resolve true (Document.options.file (.ofString "cfg")) =
      .ok (.taken options (.file (Text.Utf8.encode "\x7b\x7d"))) := by
    decide +kernel
  have hconfig : FileTree.configured.resolve true (Document.config.file (.ofString "cfg")) =
      .ok (.taken config (.file [])) := by
    decide +kernel
  have hother : config ≠ options := by decide
  have hnode : (FileTree.configured.refill options contents).node? config = some (.file []) := by
    rw [node?_refill, node?_of_resolve hconfig, Option.map_some, if_neg hother]
  have hkept := (FileTree.configured.keeps_refill options contents).resolve hconfig hnode
  refine ⟨FileTree.configured.refill options contents, ?_, ?_⟩
  · rw [FileTree.write, hoptions]
  · rw [FileTree.readText, FileTree.read, hkept]
    rfl

/-- What a session for a profile starts with that nothing is stored for. -/
def Settings.fresh (p : Profile) : Settings :=
  p.defaultSettings.seeded p

/-- A run that saves what a script makes of the settings, and a machine after it on which a run asks
nothing. -/
theorem World.yields_waiting {lines : List String} {s : Settings}
    (hlines : (lines.map Text.Utf8.encode).map World.lineText? = lines.map some)
    (hdone : ((Editor.dialogue Builtin.hevc).feed
      (Editor.start Builtin.hevc (.fresh Builtin.hevc)) lines).stand = .done (s, [])) : ∃ w,
    (World.waiting lines).Yields (Batch.prepare World.host (.dry true) (.ofString "cfg"))
      ⟨{}, Builtin.hevc, s⟩ w ∧
    Batch.Unattended (.dry false) (.ofString "cfg") w {} Builtin.hevc := by
  have hconfig : Config.read? "" = some {} := by decide +kernel
  have hcfg : FileTree.configured.readText (Document.config.file (.ofString "cfg")) = .ok "" := by
    decide +kernel
  have hopt : FileTree.configured.readText (Document.options.file (.ofString "cfg")) =
      .ok "\x7b\x7d" := by
    decide +kernel
  have hdirectory : FileTree.configured.isDirectory
      ((Document.options.file (.ofString "cfg")).parent?.getD ⟨[]⟩) = true := by
    decide +kernel
  have hempty : Options.read? "\x7b\x7d" = some Keyed.empty := by decide +kernel
  have htold (skip : Bool) : Selection.ofRequest Registry.builtin (some "hevc") skip =
      .settled Builtin.hevc := by
    cases skip <;> decide +kernel
  have hshown := ((World.waiting lines).see (.printed windowTitle)).note_resembles .info
    ("Selected profile " ++ Builtin.hevc.display)
  have hscript := (congrArg (List.map World.lineText?) hshown.2).trans hlines
  have hskip : (Invocation.dry true).skipMenu = false := rfl
  rw [Settings.fresh, ← Options.settingsFor_empty] at hdone
  obtain ⟨w₁, hsettle, htree⟩ := Batch.yields_settle hskip hscript hdone
  obtain ⟨t, hwrite, hread⟩ := FileTree.write_configured
    (Text.Utf8.encode (Options.store Keyed.empty Builtin.hevc s).text)
  have hthere : w₁.tree.createDirectories
      ((Document.options.file (.ofString "cfg")).parent?.getD ⟨[]⟩) = (.ok (), .configured) := by
    rw [htree, hshown.1]
    exact FileTree.createDirectories_of_isDirectory (.inr hdirectory)
  obtain ⟨w₂, hsave, hsaved⟩ := Batch.yields_saveDefaults hthere hwrite
  refine ⟨w₂, Batch.yields_prepare (Config.load_of_readText hcfg hconfig)
    (Options.load_of_readText Registry.builtin hopt hempty) rfl (htold _) rfl hsettle hsave, ?_⟩
  exact ⟨⟨w₂, Config.load_of_readText (hsaved ▸ hread) hconfig, w₂, rfl⟩, htold _, rfl, rfl, rfl⟩

/-- A session that changes nothing is resumed as it was. -/
theorem savedDefaults_resumed_hevc :
    ∃ w₁ w₂,
      (World.waiting [""]).Yields (Batch.prepare World.host (.dry true) (.ofString "cfg"))
        ⟨{}, Builtin.hevc, .fresh Builtin.hevc⟩ w₁ ∧
      w₁.Yields (Batch.prepare World.host (.dry false) (.ofString "cfg"))
        ⟨{}, Builtin.hevc, .fresh Builtin.hevc⟩ w₂ ∧
      ∀ input output, Builtin.hevc.plan (Settings.fresh Builtin.hevc |>.resumed Builtin.hevc)
        input output = Builtin.hevc.plan (.fresh Builtin.hevc) input output := by
  have hdone : ((Editor.dialogue Builtin.hevc).feed
      (Editor.start Builtin.hevc (.fresh Builtin.hevc)) [""]).stand =
      .done (.fresh Builtin.hevc, []) :=
    Dialogue.stand_feed_done rfl []
  have hsame : (Settings.fresh Builtin.hevc).resumed Builtin.hevc = .fresh Builtin.hevc := by
    decide +kernel
  obtain ⟨w₁, hfirst, hsecond⟩ := World.yields_waiting (by decide +kernel) hdone
  obtain ⟨⟨w₂, hresumed⟩, hiff, hplan⟩ :=
    savedDefaults_resumed (by simp [builtinProfiles]) hfirst rfl rfl hsecond
  obtain ⟨hfix, htexts⟩ := hiff.mp hsame
  rw [hsame] at hresumed
  exact ⟨w₁, w₂, hfirst, hresumed, hplan hfix fun key _ => htexts key⟩

/-- Whether a session of some lines ends with settings that the next run does not work with, and that
have another plan. -/
def Batch.EndsOtherwise (lines : List String) (s : Settings) : Prop :=
  ∃ w₁ w₂,
    (World.waiting lines).Yields (prepare World.host (.dry true) (.ofString "cfg"))
      ⟨{}, Builtin.hevc, s⟩ w₁ ∧
    w₁.Yields (prepare World.host (.dry false) (.ofString "cfg"))
      ⟨{}, Builtin.hevc, .fresh Builtin.hevc⟩ w₂ ∧
    s ≠ Settings.fresh Builtin.hevc ∧
    Builtin.hevc.plan s (.ofString "a.mp4") (.ofString "output") ≠
      Builtin.hevc.plan (.fresh Builtin.hevc) (.ofString "a.mp4") (.ofString "output")

/-- Two sessions that are not resumed as they were: one takes back the fix, and one types a text that
says to leave a parameter alone. -/
theorem savedDefaults_not_resumed :
    Batch.EndsOtherwise ["14", "3", ""] ((Settings.fresh Builtin.hevc).erase Key.evenFix) ∧
      Batch.EndsOtherwise ["10", "don't change", ""]
        ((Settings.fresh Builtin.hevc).insert "volume" (.text "don't change")) := by
  have hleave (s : Settings) : ((Editor.dialogue Builtin.hevc).answer
      (Editor.start Builtin.hevc s) (some "")).next = .done s := rfl
  constructor
  · have hmenu (s : Settings) : ((Editor.dialogue Builtin.hevc).answer
        (Editor.start Builtin.hevc s) (some "14")).next = .ask ⟨.evenFix, s⟩ := rfl
    have hcancel (s : Settings) : ((Editor.dialogue Builtin.hevc).answer ⟨.evenFix, s⟩
        (some "3")).next = .ask (Editor.start Builtin.hevc (s.erase Key.evenFix)) := rfl
    have hreset : Settings.resumed Builtin.hevc ((Settings.fresh Builtin.hevc).erase Key.evenFix) =
        Settings.fresh Builtin.hevc := by
      decide +kernel
    have hdone : ((Editor.dialogue Builtin.hevc).feed
        (Editor.start Builtin.hevc (.fresh Builtin.hevc)) ["14", "3", ""]).stand =
        .done ((Settings.fresh Builtin.hevc).erase Key.evenFix, []) := by
      rw [Dialogue.stand_feed_ask (hmenu _), Dialogue.stand_feed_ask (hcancel _),
        Dialogue.stand_feed_done (hleave _)]
    obtain ⟨w₁, hfirst, hunattended⟩ := World.yields_waiting (by decide +kernel) hdone
    obtain ⟨w₂, hsecond⟩ := hunattended.resumes (by simp [builtinProfiles]) hfirst rfl rfl
    rw [hreset] at hsecond
    exact ⟨w₁, w₂, hfirst, hsecond, by decide +kernel, by decide +kernel⟩
  · have hmenu (s : Settings) : ((Editor.dialogue Builtin.hevc).answer
        (Editor.start Builtin.hevc s) (some "10")).next = .ask ⟨.direct ⟨9, by decide⟩ .any, s⟩ :=
      rfl
    have htyped (s : Settings) : ((Editor.dialogue Builtin.hevc).answer
        ⟨.direct ⟨9, by decide⟩ .any, s⟩ (some "don't change")).next =
        .ask (Editor.start Builtin.hevc (s.insert "volume" (.text "don't change"))) := rfl
    have hreset : Settings.resumed Builtin.hevc
        ((Settings.fresh Builtin.hevc).insert "volume" (.text "don't change")) =
        Settings.fresh Builtin.hevc := by
      decide +kernel
    have hdone : ((Editor.dialogue Builtin.hevc).feed
        (Editor.start Builtin.hevc (.fresh Builtin.hevc)) ["10", "don't change", ""]).stand =
        .done ((Settings.fresh Builtin.hevc).insert "volume" (.text "don't change"), []) := by
      rw [Dialogue.stand_feed_ask (hmenu _), Dialogue.stand_feed_ask (htyped _),
        Dialogue.stand_feed_done (hleave _)]
    obtain ⟨w₁, hfirst, hunattended⟩ := World.yields_waiting (by decide +kernel) hdone
    obtain ⟨w₂, hsecond⟩ := hunattended.resumes (by simp [builtinProfiles]) hfirst rfl rfl
    rw [hreset] at hsecond
    exact ⟨w₁, w₂, hfirst, hsecond, by decide +kernel, by decide +kernel⟩

end Transcode
