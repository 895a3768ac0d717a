import Transcode.Plan.Basic
import Transcode.Profile.Builtin
import Transcode.Proofs.Editor.Change
import Transcode.Proofs.Options
import Transcode.Proofs.Program.SavedDefaults
import Transcode.Proofs.Storage
import Transcode.Proofs.Validation.Accepted

/-! # Edited settings saved and loaded

The file spells the wish to leave a parameter alone like a text of these words. No file and no list of
choices holds such a text; it can only be typed, where any text may be. -/

namespace Transcode

open Number
open Setting (dontChangeText)
open Text (trim)

/-! ## Where the text can come from -/

/-- Whether the words and the choices of a kind are other than the text that says to leave a parameter
alone. -/
def Kind.isUnambiguous : Kind → Bool
  | .direct (.oneOf values) => values.all (· != dontChangeText)
  | .choice choices => choices.all (·.value != dontChangeText)
  | .direct _ | .scale => true

theorem isUnambiguous_builtin : ∀ p ∈ builtinProfiles, ∀ q ∈ p.parameters,
    q.kind.isUnambiguous = true := by
  decide +kernel

/-- Only where anything may be typed is the text accepted. -/
theorem eq_any_of_checkTrimmed {r : Range} (hr : (Kind.direct r).isUnambiguous = true)
    (h : checkTrimmed r dontChangeText = .ok ()) : r = .any := by
  cases r with
  | any => rfl
  | int min max =>
    have hread : int64? dontChangeText = none := by decide +kernel
    simp [checkTrimmed, hread] at h
  | kbps min max =>
    have hread : bitRate? dontChangeText = none := by
      have hlast : dontChangeText.toList.getLast? = some 'e' := by decide
      have hread : int64? dontChangeText = none := by decide +kernel
      simp [bitRate?, hlast, hread]
    simp [checkTrimmed, hread] at h
  | float min max =>
    have hread : finite? dontChangeText = none := by decide +kernel
    simp [checkTrimmed, hread] at h
  | oneOf values =>
    have hword : dontChangeText ∈ values := checkTrimmed_oneOf_eq_ok_iff.mp h
    have hne := List.all_eq_true.mp hr _ hword
    simp at hne

theorem Resolution.display_ne_dontChangeText (r : Resolution) : r.display ≠ dontChangeText := by
  intro h
  have hcolon : ':' ∈ dontChangeText.toList := by
    rw [← h, Resolution.display]
    simp
  exact absurd hcolon (by decide)

/-- What the editor stores is the text only for a parameter with free texts, and only if the line is
the text. -/
theorem eq_any_of_writes {p : Profile} (hp : ∀ q ∈ p.parameters, q.kind.isUnambiguous = true)
    {place : Editor.Place p} {line key : String} (hfits : place.Fits)
    (hwrites : Editor.Writes place line key (.text dontChangeText)) :
    (∃ q ∈ p.parameters, q.key = key ∧ q.kind = .direct .any) ∧ trim line = dontChangeText := by
  have hmem (i : Fin p.parameters.length) : p.parameters.get i ∈ p.parameters :=
    List.get_mem _ i
  generalize hv : Setting.text dontChangeText = v at hwrites
  cases hwrites with
  | @typed i range _ haccepted =>
    have hkind : (p.parameters.get i).kind = .direct range := hfits
    have htrim : trim line = dontChangeText := by
      rw [Setting.ofInput] at hv
      split at hv
      · cases hv
      · exact (Setting.text.inj hv).symm
    have hunambiguous := hp _ (hmem i)
    rw [hkind] at hunambiguous
    rw [checkInput, htrim] at haccepted
    rw [eq_any_of_checkTrimmed hunambiguous haccepted] at hkind
    exact ⟨⟨_, hmem i, rfl, hkind⟩, htrim⟩
  | directReset => cases hv
  | @chosen i choices c _ hc =>
    have hkind : (p.parameters.get i).kind = .choice choices := hfits
    have hunambiguous := hp _ (hmem i)
    rw [hkind] at hunambiguous
    have hne := List.all_eq_true.mp hunambiguous c hc
    simp [← Setting.text.inj hv] at hne
  | choiceReset => cases hv
  | sized hread =>
    obtain ⟨r, rfl, -⟩ := Editor.readSize_eq_ok hread
    exact absurd (Setting.text.inj hv).symm r.display_ne_dontChangeText
  | fixed fix => cases fix <;> exact absurd (Setting.text.inj hv) (by decide)

/-- A session for a profile without ambiguous words adds the text to settings without it only where
any text may be typed. -/
theorem eq_any_of_edit {p : Profile} (hp : ∀ q ∈ p.parameters, q.kind.isUnambiguous = true)
    {script : List String} {s : Settings} (hs : s.reread = s) {key : String}
    (h : (Editor.edit p s script).result.get? key = some (.text dontChangeText)) :
    (∃ q ∈ p.parameters, q.key = key ∧ q.kind = .direct .any) ∧
      ∃ line ∈ script, trim line = dontChangeText := by
  have hall : (Editor.edit p s script).result.All fun key v => v = .text dontChangeText →
      (∃ q ∈ p.parameters, q.key = key ∧ q.kind = .direct .any) ∧
        ∃ line ∈ script, trim line = dontChangeText := by
    apply Editor.edit_all
    · rintro place line key _ hfits hline hwrites rfl
      obtain ⟨hkey, htrim⟩ := eq_any_of_writes hp hfits hwrites
      exact ⟨hkey, line, hline, htrim⟩
    · rintro key _ hkey rfl
      exact absurd hkey (s.reread_eq_self_iff.mp hs key)
  exact hall key _ h rfl

/-! ## Loading, editing, saving and loading again -/

/-- Loaded options hold the text for no built-in profile. -/
theorem reread_settingsFor_of_load {p : Profile} (hp : p ∈ builtinProfiles) {file : Path}
    {o : Options} {w w' : World}
    (h : (Options.load World.host file Registry.builtin).run w = (.ok o, w')) :
    (o.settingsFor p).reread = o.settingsFor p := by
  have hdefault : ∀ p ∈ builtinProfiles, p.defaultSettings.reread = p.defaultSettings := by
    decide +kernel
  have hdefaults : ∀ e ∈ (Options.defaults Registry.builtin).entries, e.2.reread = e.2 := by
    decide +kernel
  rcases o.settingsFor_cases p with ⟨name, hstored⟩ | hstored
  · rcases Options.read?_or_defaults_of_load h with ⟨text, hread⟩ | rfl
    · exact Options.all_reread_of_read? hread name _ hstored
    · exact hdefaults _ (Keyed.get?_eq_some_iff.mp hstored)
  · rw [hstored, hdefault p hp]

/-- No free text of a profile says to leave its parameter alone. -/
def Profile.HasPlainTexts (p : Profile) (s : Settings) : Prop :=
  ∀ q ∈ p.parameters, q.kind = .direct .any → s.get? q.key ≠ some (.text dontChangeText)

/-- Settings that were edited and saved are loaded again, where a free text that says to leave its
parameter alone has become the wish to do so. It takes the line with this text to make a difference. -/
theorem settingsFor_of_saved_edit {p : Profile} (hp : p ∈ builtinProfiles) {script : List String}
    {source file : Path} {o : Options} {s : Settings} {w₁ w₂ w₃ w₄ : World}
    (hload : (Options.load World.host source Registry.builtin).run w₁ = (.ok o, w₂))
    (hedit : (Editor.edit p (o.settingsFor p) script).result = s)
    (hsave : ((o.store p s).save World.host file).run w₃ = (.ok (), w₄)) :
    ∃ o', (Options.load World.host file Registry.builtin).run w₄ = (.ok o', w₄) ∧
      o'.settingsFor p = s.reread ∧
      (o'.settingsFor p = s ↔ p.HasPlainTexts s) ∧
      (p.HasPlainTexts s → ∀ input directory,
        p.plan (o'.settingsFor p) input directory = p.plan s input directory) ∧
      ((∀ line ∈ script, trim line ≠ dontChangeText) → p.HasPlainTexts s) := by
  have hname : ∀ p ∈ builtinProfiles, p.isNamed p.name = true := by decide
  have htexts {key : String} (hkey : s.get? key = some (.text dontChangeText)) :
      (∃ q ∈ p.parameters, q.key = key ∧ q.kind = .direct .any) ∧
        ∃ line ∈ script, trim line = dontChangeText := by
    rw [← hedit] at hkey
    exact eq_any_of_edit (isUnambiguous_builtin p hp) (reread_settingsFor_of_load hp hload) hkey
  have hreloaded : (o.store p s).reread.settingsFor p = s.reread := by
    rw [Options.reread_store, Options.settingsFor_store (hname p hp)]
  have hsame : s.reread = s ↔ p.HasPlainTexts s := by
    rw [Settings.reread_eq_self_iff]
    constructor
    · intro h q _ _
      exact h q.key
    · intro h key hkey
      obtain ⟨⟨q, hq, rfl, hkind⟩, -⟩ := htexts hkey
      exact h q hq hkind hkey
  refine ⟨(o.store p s).reread, ?_, hreloaded, hreloaded ▸ hsame, ?_, ?_⟩
  · exact Options.load_of_readText _ (Options.readText_of_save hsave) (Options.read?_text _)
  · intro h input directory
    rw [hreloaded, hsame.mpr h]
  · intro hscript q _ _ hkey
    obtain ⟨-, line, hline, htrim⟩ := htexts hkey
    exact hscript line hline htrim

/-! ## Two sessions on a small machine -/

theorem World.load_waiting (r : Registry) :
    (Options.load World.host (Document.options.file (.ofString "cfg")) r).run (World.waiting []) =
      (.ok Keyed.empty, World.waiting []) := by
  have htext : (World.waiting []).tree.readText (Document.options.file (.ofString "cfg")) =
      .ok "\x7b\x7d" := by
    decide +kernel
  have hempty : Options.read? "\x7b\x7d" = some Keyed.empty := by decide +kernel
  exact Options.load_of_readText r htext hempty

theorem World.save_waiting (o : Options) :
    ∃ w, (o.save World.host (Document.options.file (.ofString "cfg"))).run (World.waiting []) =
      (.ok (), w) := by
  have hdirectory : FileTree.configured.isDirectory
      ((Document.options.file (.ofString "cfg")).parent?.getD ⟨[]⟩) = true := by
    decide +kernel
  have hthere : (World.waiting []).tree.createDirectories
      ((Document.options.file (.ofString "cfg")).parent?.getD ⟨[]⟩) = (.ok (), .configured) :=
    FileTree.createDirectories_of_isDirectory (.inr hdirectory)
  obtain ⟨t, hwrite, -⟩ := FileTree.write_configured (Text.Utf8.encode o.text)
  refine ⟨{ World.waiting [] with tree := t }, ?_⟩
  rw [Options.save, Document.save_run, hthere]
  simp only [hwrite]

/-- A session that sets the volume is loaded as it was. -/
theorem settingsFor_of_saved_edit_volume : ∃ w o,
    ((Options.store Keyed.empty Builtin.hevc
        (Builtin.hevc.defaultSettings.insert "volume" (.text "1.5"))).save World.host
      (Document.options.file (.ofString "cfg"))).run (World.waiting []) = (.ok (), w) ∧
    (Options.load World.host (Document.options.file (.ofString "cfg")) Registry.builtin).run w =
      (.ok o, w) ∧
    o.settingsFor Builtin.hevc = Builtin.hevc.defaultSettings.insert "volume" (.text "1.5") := by
  have hedit : (Editor.edit Builtin.hevc (Options.settingsFor Keyed.empty Builtin.hevc)
      ["10", "1.5", ""]).result =
      Builtin.hevc.defaultSettings.insert "volume" (.text "1.5") := by
    decide +kernel
  have hscript : ∀ line ∈ ["10", "1.5", ""], trim line ≠ dontChangeText := by decide +kernel
  obtain ⟨w, hsave⟩ := World.save_waiting (Options.store Keyed.empty Builtin.hevc
    (Builtin.hevc.defaultSettings.insert "volume" (.text "1.5")))
  obtain ⟨o, hload, -, hsame, -, hplain⟩ :=
    settingsFor_of_saved_edit (by simp [builtinProfiles]) (World.load_waiting _) hedit hsave
  exact ⟨w, o, hsave, hload, hsame.mpr (hplain hscript)⟩

/-- Not all sessions are loaded as they were: a volume of these words is lost. -/
theorem not_settingsFor_of_saved_edit :
    ¬ ∀ p ∈ builtinProfiles, ∀ (script : List String) (file : Path) (o : Options) (s : Settings)
      (w₁ w₂ w₃ w₄ : World),
      (Options.load World.host file Registry.builtin).run w₁ = (.ok o, w₂) →
      (Editor.edit p (o.settingsFor p) script).result = s →
      ((o.store p s).save World.host file).run w₃ = (.ok (), w₄) →
      ∃ o', (Options.load World.host file Registry.builtin).run w₄ = (.ok o', w₄) ∧
        o'.settingsFor p = s := by
  intro h
  have hedit : (Editor.edit Builtin.hevc (Options.settingsFor Keyed.empty Builtin.hevc)
      ["10", "don't change", ""]).result =
      Builtin.hevc.defaultSettings.insert "volume" (.text dontChangeText) := by
    decide +kernel
  obtain ⟨w, hsave⟩ := World.save_waiting (Options.store Keyed.empty Builtin.hevc
    (Builtin.hevc.defaultSettings.insert "volume" (.text dontChangeText)))
  have hreload := Options.load_of_readText Registry.builtin (Options.readText_of_save hsave)
    (Options.read?_text _)
  obtain ⟨o, hload, hsame⟩ :=
    h Builtin.hevc (by simp [builtinProfiles]) _ _ _ _ _ _ _ _ (World.load_waiting _) hedit hsave
  rw [hreload] at hload
  cases hload
  rw [Options.reread_store, Options.settingsFor_store (by decide)] at hsame
  exact (Settings.reread_eq_self_iff _).mp hsame "volume" (by simp)

end Transcode
