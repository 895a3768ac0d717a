import Transcode.Proofs.Program.SavedEdits

/-! # What is written is stable

Settings and options are read back from what is written for them, but for texts that say to leave a
parameter alone. What was read once holds no such texts, so writing and reading it again changes
nothing. -/

namespace Transcode

open Setting (dontChangeText)

/-- No value is a text that says to leave its parameter alone. -/
def Settings.IsPlain (s : Settings) : Prop :=
  ∀ key, s.get? key ≠ some (.text dontChangeText)

def Options.IsPlain (o : Options) : Prop :=
  o.All fun _ s => s.IsPlain

theorem Options.reread_eq_self_iff (o : Options) : o.reread = o ↔ o.IsPlain := by
  rw [reread, Keyed.mapValues_eq_self_iff]
  simp only [Keyed.All, Settings.reread_eq_self_iff, IsPlain, Settings.IsPlain]

/-- Whatever is written is read, and it is as it was but for texts that say to leave a parameter
alone; whatever was read is written and read again as it is, holds no such text, and holds nothing
where the last word was a null. This is so for settings in either layout and for options in a file. -/
theorem json_stable :
    (∀ s : Settings,
      Settings.read? s.toJson.compactText = some s.reread ∧
      Settings.read? s.toJson.prettyText = some s.reread ∧
      (∀ key, s.reread.get? key =
        if s.get? key = some (.text dontChangeText) then some .dontChange else s.get? key) ∧
      (s.reread = s ↔ s.IsPlain)) ∧
    (∀ (json : String) (s : Settings), Settings.read? json = some s →
      Settings.read? s.toJson.compactText = some s ∧
      Settings.read? s.toJson.prettyText = some s ∧
      s.IsPlain ∧
      ∀ j key, Json.read? json = some j → j.last? key = some .null → s.get? key = none) ∧
    (∀ (o : Options) (r : Registry) (file : Path) (w w' : World),
      (o.save World.host file).run w = (.ok (), w') →
      (Options.load World.host file r).run w' = (.ok o.reread, w') ∧
      (∀ name, o.reread.get? name = (o.get? name).map Settings.reread) ∧
      (o.reread = o ↔ o.IsPlain)) ∧
    (∀ (json : String) (o : Options) (r : Registry) (file : Path) (w w' : World),
      w.tree.readText file = .ok json → (Options.load World.host file r).run w = (.ok o, w') →
      w' = w ∧
      (∀ (r₁ : Registry) (file₁ : Path) (w₁ w₂ : World),
        (o.save World.host file₁).run w₁ = (.ok (), w₂) →
        (Options.load World.host file₁ r₁).run w₂ = (.ok o, w₂)) ∧
      o.IsPlain ∧
      ∀ j v name key, Json.read? json = some j → j.last? name = some v →
        v.last? key = some .null → ∃ s, o.get? name = some s ∧ s.get? key = none) := by
  refine ⟨fun s => ⟨s.read?_compactText, s.read?_prettyText, s.get?_reread_eq_ite,
    s.reread_eq_self_iff⟩, ?_, ?_, ?_⟩
  · intro json s h
    obtain ⟨j, hj, hs⟩ := Option.bind_eq_some_iff.mp h
    have hsame : s.reread = s := Settings.reread_of_ofJson? hs
    refine ⟨?_, ?_, s.reread_eq_self_iff.mp hsame, ?_⟩
    · rw [s.read?_compactText, hsame]
    · rw [s.read?_prettyText, hsame]
    · intro j' key hj' hkey
      obtain rfl : j = j' := Option.some.inj (hj.symm.trans hj')
      exact Settings.get?_eq_none_of_null hs hkey
  · intro o r file w w' hsave
    exact ⟨o.load_of_save r hsave, Keyed.get?_mapValues _ o, o.reread_eq_self_iff⟩
  · intro json o r file w w' htext hload
    obtain ⟨hread, rfl⟩ := Options.read?_of_load htext hload
    obtain ⟨j, hj, ho⟩ := Option.bind_eq_some_iff.mp hread
    have hsame : o.reread = o :=
      Keyed.mapValues_eq_self_iff.mpr (Options.all_reread_of_read? hread)
    refine ⟨rfl, ?_, o.reread_eq_self_iff.mp hsame, ?_⟩
    · intro r₁ file₁ w₁ w₂ hsave
      rw [o.load_of_save r₁ hsave, hsame]
    · intro j' v name key hj' hname hkey
      obtain rfl : j = j' := Option.some.inj (hj.symm.trans hj')
      have hlast := Options.get?_of_ofJson? ho name
      rw [hname, Option.map_some, Option.map_eq_some_iff] at hlast
      obtain ⟨s, hs, hv⟩ := hlast
      exact ⟨s, hs, Settings.get?_eq_none_of_null hv.symm hkey⟩

/-- Settings in which a null takes back a number. -/
def Settings.retracting : String :=
  "\x7b\"crf\":35,\"fps\":24,\"crf\":null\x7d"

/-- Options with these settings. -/
def Options.retracting : String :=
  "\x7b\"AV1\":" ++ Settings.retracting ++ "\x7d"

/-- What a null leaves is written and read again as it is. -/
theorem json_stable_retracting : ∃ (s : Settings) (o : Options) (w w' : World),
    Settings.read? Settings.retracting = some s ∧
    Settings.read? s.toJson.compactText = some s ∧ s.get? "crf" = none ∧
    w.tree.readText (Document.options.file (.ofString "cfg")) = .ok Options.retracting ∧
    (Options.load World.host (Document.options.file (.ofString "cfg")) Registry.builtin).run w =
      (.ok o, w) ∧
    (o.save World.host (Document.options.file (.ofString "cfg"))).run (World.waiting []) =
      (.ok (), w') ∧
    (Options.load World.host (Document.options.file (.ofString "cfg")) Registry.builtin).run w' =
      (.ok o, w') ∧
    ∃ s, o.get? "AV1" = some s ∧ s.get? "crf" = none := by
  let members := [("crf", Json.integer 35), ("fps", .integer 24), ("crf", .null)]
  have hmembers : ∀ m ∈ members, Json.Reads 0 (Json.compact m.2) m.2 := by
    intro m hm
    simp only [members, List.mem_cons, List.not_mem_nil, or_false] at hm
    rcases hm with rfl | rfl | rfl
    · exact Json.reads_integer 0 (by decide) (by decide)
    · exact Json.reads_integer 0 (by decide) (by decide)
    · exact Json.reads_null 0
  have hnested : ∀ m ∈ [("AV1", Json.object members)], Json.Reads 1 (Json.compact m.2) m.2 := by
    intro m hm
    rw [List.mem_singleton.mp hm]
    exact Json.reads_compactObject hmembers
  have hjson : Json.read? Settings.retracting = some (.object members) := by
    have htext : Settings.retracting = (Json.object members).compactText := by decide +kernel
    rw [htext]
    exact Json.read?_of_reads (Json.reads_compactObject hmembers) (by decide)
  have hsettings : Settings.read? Settings.retracting =
      some (Keyed.empty.insert "fps" (.int 24)) := by
    decide +kernel
  have hobject : Json.read? Options.retracting = some (.object [("AV1", .object members)]) := by
    have htext : Options.retracting = (Json.object [("AV1", .object members)]).compactText := by
      decide +kernel
    rw [htext]
    exact Json.read?_of_reads (Json.reads_compactObject hnested) (by decide)
  have hoptions : Options.read? Options.retracting =
      some (Keyed.empty.insert "AV1" (Keyed.empty.insert "fps" (.int 24))) := by
    decide +kernel
  obtain ⟨t, hwrite, -⟩ := FileTree.write_configured (Text.Utf8.encode Options.retracting)
  have htext := FileTree.readText_of_write hwrite
  have hload := Options.load_of_readText (w := { World.waiting [] with tree := t })
    Registry.builtin htext hoptions
  obtain ⟨w', hsave⟩ := World.save_waiting
    (Keyed.empty.insert "AV1" (Keyed.empty.insert "fps" (.int 24)))
  obtain ⟨-, hread, -, hstored⟩ := json_stable
  obtain ⟨hcompact, -, -, hnull⟩ := hread _ _ hsettings
  obtain ⟨-, hagain, -, hnulls⟩ := hstored _ _ _ _ _ _ htext hload
  exact ⟨_, _, _, w', hsettings, hcompact, hnull _ _ hjson rfl, htext, hload, hsave,
    hagain _ _ _ _ hsave, hnulls _ _ _ _ hobject rfl rfl⟩

end Transcode
