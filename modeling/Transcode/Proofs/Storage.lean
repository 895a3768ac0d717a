import Transcode.Proofs.FileTree
import Transcode.Proofs.Options
import Transcode.Proofs.World
import Transcode.Storage

/-! # Documents in the files of a world -/

namespace Transcode

theorem FileTree.readText_of_write {t t' : FileTree} {p : Path} {s : String}
    (h : t.write p (Text.Utf8.encode s) = .ok t') : t'.readText p = .ok s := by
  rw [readText, read_of_write h]
  simp [Except.bind]

theorem FileTree.Extends.readText {t t' : FileTree} (he : t.Extends t') {p : Path} {s : String}
    (h : t.readText p = .ok s) : t'.readText p = .ok s := by
  cases hr : t.read p with
  | error fault => simp [FileTree.readText, hr, Except.bind] at h
  | ok contents => rwa [FileTree.readText, he.read hr, ← hr, ← FileTree.readText]

theorem FileTree.holds_of_readText {t : FileTree} {p : Path} {s : String}
    (h : t.readText p = .ok s) : t.holds p = true := by
  cases hr : t.read p with
  | error fault => simp [readText, hr, Except.bind] at h
  | ok contents =>
    obtain ⟨place, hplace⟩ := read_eq_ok_iff.mp hr
    rw [holds, lookup?_eq_some_iff.mpr ⟨place, hplace⟩]
    rfl

variable {w w' : World}

namespace Document

/-- The trees that saving goes through: one with the directory, then one with the file. -/
theorem save_run (d : Document) (directory file : Path) (text : Except String String) (w : World) :
    (save World.host d directory file text).run w =
      match w.tree.createDirectories directory with
      | (.error fault, tree) => (.error (.createDirectory d directory fault), { w with tree := tree })
      | (.ok (), tree) =>
        match text with
        | .error reason => (.error (.encode d reason), { w with tree := tree })
        | .ok text =>
          match tree.write file (Text.Utf8.encode text) with
          | .error fault => (.error (.write d file fault), { w with tree := tree })
          | .ok tree => (.ok (), { w with tree := tree }) := by
  rcases hd : w.tree.createDirectories directory with ⟨fault | _, tree⟩
  · simp [save, World.host, World.change, hd]
    rfl
  · cases text with
    | error reason =>
      simp [save, World.host, World.change, hd]
      rfl
    | ok text =>
      cases hw : tree.write file (Text.Utf8.encode text) <;>
        simp [save, World.host, World.change, FileTree.after, hd, hw, Except.mapError] <;> rfl

/-- A saved document is in its file. -/
theorem readText_of_save {d : Document} {directory file : Path} {text : String}
    (h : (save World.host d directory file (.ok text)).run w = (.ok (), w')) :
    w'.tree.readText file = .ok text := by
  rw [save_run] at h
  split at h
  · cases h
  · simp only at h
    split at h
    · cases h
    · rename_i hw
      cases h
      exact FileTree.readText_of_write hw

/-- Loading leaves the world as it is. -/
theorem load_run {α : Type} (d : Document) (file : Path) (read? : String → Option α) (w : World) :
    (load World.host d file read?).run w =
      (if w.tree.holds file then
        match w.tree.readText file with
        | .error fault => .error (.read d file fault)
        | .ok text =>
          match read? text with
          | some a => .ok (some a)
          | none => .error (.parse d file)
      else .ok none, w) := by
  cases hh : w.tree.holds file with
  | false =>
    simp [load, World.host, hh]
    rfl
  | true =>
    cases hr : w.tree.readText file with
    | error fault =>
      simp [load, World.host, hh, hr]
      rfl
    | ok text =>
      cases ha : read? text <;> simp [load, World.host, hh, hr, ha] <;> rfl

/-- A directory with a document that can be read need not be created. -/
theorem createDirectories_of_readText {t : FileTree} {d : Document} {directory : Path}
    {text : String} (h : t.readText (d.file directory) = .ok text) :
    t.createDirectories directory = (.ok (), t) := by
  apply FileTree.createDirectories_of_isDirectory
  by_cases hd : directory.bytes = []
  · exact .inl hd
  · cases hr : t.read (d.file directory) with
    | error fault => simp [FileTree.readText, hr, Except.bind] at h
    | ok contents =>
      have hslash : Path.slash ∉ Text.Utf8.encode d.fileName := by
        cases d <;> decide
      obtain ⟨place, hplace⟩ := FileTree.read_eq_ok_iff.mp hr
      exact .inr (FileTree.isDirectory_of_join hd hslash hplace)

end Document

theorem Config.load_of_readText {directory : Path} {text : String} {c : Config}
    (h : w.tree.readText (Document.config.file directory) = .ok text)
    (hc : Config.read? text = some c) :
    (Config.load World.host directory).run w = (.ok c, w) := by
  rw [Config.load, World.run_bind, Document.load_run]
  simp only [FileTree.holds_of_readText h, h, hc]
  rfl

/-- Writing a configuration where there is none, but where there are options, adds at most a file. -/
theorem Config.extends_save {directory : Path} {text : String} (c : Config)
    (hc : w.tree.holds (Document.config.file directory) = false)
    (h : w.tree.readText (Document.options.file directory) = .ok text) :
    w.tree.Extends ((Config.save World.host directory c).run w).2.tree := by
  rw [Config.save, Document.save_run, Document.createDirectories_of_readText h]
  cases c.toml? with
  | none => exact .refl _
  | some toml =>
    simp only
    split
    · exact .refl _
    · rename_i hw
      exact FileTree.extends_of_write hc hw

/-- Loading the configuration of a directory with options leaves these as they are, even if the
configuration has to be written first. -/
theorem Config.extends_of_load {directory : Path} {c : Config} {text : String}
    (hload : (Config.load World.host directory).run w = (.ok c, w'))
    (h : w.tree.readText (Document.options.file directory) = .ok text) :
    w.tree.Extends w'.tree := by
  rw [Config.load, World.run_bind, Document.load_run] at hload
  cases hc : w.tree.holds (Document.config.file directory) with
  | true =>
    simp only [hc, if_true] at hload
    cases hr : w.tree.readText (Document.config.file directory) with
    | error fault =>
      rw [hr] at hload
      cases hload
    | ok s =>
      cases hs : read? s with
      | none =>
        simp only [hr, hs] at hload
        cases hload
      | some c' =>
        simp only [hr, hs] at hload
        cases hload
        exact .refl _
  | false =>
    have hsave := Config.extends_save {} hc h
    simp only [hc, Bool.false_eq_true, if_false, World.run_bind] at hload
    rcases hs : (Config.save World.host directory {}).run w with ⟨saved, w₁⟩
    rw [hs] at hsave hload
    cases saved with
    | ok _ =>
      cases hload
      exact hsave
    | error fault =>
      cases hload
      exact (w₁.note_resembles _ _).1.symm ▸ hsave

theorem Options.readText_of_save {file : Path} {o : Options}
    (h : (Options.save World.host file o).run w = (.ok (), w')) :
    w'.tree.readText file = .ok o.text :=
  Document.readText_of_save h

/-- Options are loaded from their file if it holds any. -/
theorem Options.load_of_readText {file : Path} {text : String} {o : Options} (r : Registry)
    (h : w.tree.readText file = .ok text) (ho : Options.read? text = some o) :
    (Options.load World.host file r).run w = (.ok o, w) := by
  rw [Options.load, World.run_bind, Document.load_run]
  simp only [FileTree.holds_of_readText h, h, ho]
  rfl

/-- Options that were saved can be loaded. -/
theorem Options.load_of_save {file : Path} {o : Options} (r : Registry)
    (h : (Options.save World.host file o).run w = (.ok (), w')) :
    (Options.load World.host file r).run w' = (.ok o.reread, w') :=
  Options.load_of_readText r (Options.readText_of_save h) o.read?_text

/-- Loading options from a text reads the text and leaves the world as it is. -/
theorem Options.read?_of_load {file : Path} {text : String} {r : Registry} {o : Options}
    (htext : w.tree.readText file = .ok text)
    (h : (Options.load World.host file r).run w = (.ok o, w')) :
    Options.read? text = some o ∧ w' = w := by
  rw [Options.load, World.run_bind, Document.load_run] at h
  simp only [FileTree.holds_of_readText htext, htext, if_true] at h
  cases ho : Options.read? text with
  | none =>
    simp only [ho] at h
    cases h
  | some o' =>
    simp only [ho] at h
    cases h
    exact ⟨rfl, rfl⟩

/-- Options that are loaded were read from a text, or are those that a registry starts with. -/
theorem Options.read?_or_defaults_of_load {file : Path} {r : Registry} {o : Options}
    (h : (Options.load World.host file r).run w = (.ok o, w')) :
    (∃ text, Options.read? text = some o) ∨ o = Options.defaults r := by
  cases hr : w.tree.readText file with
  | ok text => exact .inl ⟨text, (Options.read?_of_load hr h).1⟩
  | error fault =>
    rw [Options.load, World.run_bind, Document.load_run] at h
    cases hh : w.tree.holds file with
    | true =>
      simp only [hh, if_true, hr] at h
      cases h
    | false =>
      simp only [hh, Bool.false_eq_true, if_false, World.run_bind] at h
      rcases hs : (Options.save World.host file (Options.defaults r)).run w with ⟨saved, w₁⟩
      rw [hs] at h
      cases saved with
      | error fault => cases h
      | ok _ =>
        cases h
        exact .inr rfl

end Transcode
