import Mathlib.Data.List.Sort
import Transcode.Proofs.FileTree.Listing
import Transcode.Proofs.Path.Order
import Transcode.Proofs.Text.WellFormed

/-! # What is transcoded

What a search of a directory finds, and what a list of paths is collected to, told without the search
and the sorting. -/

namespace Transcode

open Text (Bytes)

/-! ## Names of videos -/

/-- A path to a name that ends with a dot and the extension of a video, in letters of any case, and
does not start with that dot. -/
def Path.NamesVideo (p : Path) : Prop :=
  ∃ (before : Bytes) (extension : String),
    p.fileName? = some (before ++ Path.dot :: Text.Utf8.encode extension) ∧
    before ≠ [] ∧ Path.dot ∉ Text.Utf8.encode extension ∧
    String.ofList (extension.toList.map Text.smallLetter) ∈ videoExtensions

theorem Path.extension?_eq_some_iff {p : Path} {after : Bytes} :
    p.extension? = some after ↔ ∃ before, p.fileName? = some (before ++ dot :: after) ∧
      before ≠ [] ∧ dot ∉ after := by
  simp only [extension?, Option.bind_eq_some_iff, splitExtension_eq_some_iff]
  constructor
  · rintro ⟨_, hname, before, hbefore, rfl, hafter⟩
    exact ⟨before, hname, hbefore, hafter⟩
  · rintro ⟨before, hname, hbefore, hafter⟩
    exact ⟨_, hname, before, hbefore, rfl, hafter⟩

theorem Path.isVideo_iff {p : Path} : p.isVideo = true ↔ p.NamesVideo := by
  rw [isVideo]
  constructor
  · intro h
    split at h
    · rename_i extension hextension
      obtain ⟨after, hafter, htext⟩ := Option.bind_eq_some_iff.mp hextension
      obtain rfl := Text.Utf8.text?_eq_some_iff.mp htext
      obtain ⟨before, hname, hbefore, hdot⟩ := extension?_eq_some_iff.mp hafter
      exact ⟨before, extension, hname, hbefore, hdot, List.contains_iff_mem.mp h⟩
    · cases h
  · rintro ⟨before, extension, hname, hbefore, hdot, hmem⟩
    have hextension : p.extension? = some (Text.Utf8.encode extension) :=
      extension?_eq_some_iff.mpr ⟨before, hname, hbefore, hdot⟩
    rw [hextension, Option.bind_some, Text.Utf8.text?_encode]
    exact List.contains_iff_mem.mpr hmem

namespace FileTree

variable {t : FileTree} {p : Path}

/-! ## One directory -/

/-- What is found in a directory: the files below it with names of videos, each of them once and in
the order of their paths. A link to a file counts as that file, under its own name. -/
structure IsScan (t : FileTree) (p : Path) (found : List Path) : Prop where
  ordered : found.Pairwise fun q q' => q.ranks < q'.ranks
  mem_iff : ∀ q, q ∈ found ↔ t.Reaches p q ∧ t.isFile q = true ∧ q.NamesVideo

theorem isFile_iff : t.isFile p = true ↔
    ∃ place contents, t.resolve true p = .ok (.taken place (.file contents)) := by
  rw [isFile]
  split
  · rename_i contents hlookup
    obtain ⟨place, hplace⟩ := lookup?_eq_some_iff.mp hlookup
    simp [hplace]
  · rename_i hlookup
    refine ⟨nofun, ?_⟩
    rintro ⟨place, contents, hplace⟩
    exact absurd (lookup?_eq_some_iff.mpr ⟨place, hplace⟩) (hlookup contents)

theorem isFile_of_isDirectory (h : t.isDirectory p = true) : t.isFile p = false := by
  rw [isFile, beq_iff_eq.mp h]

/-- The path of the directory itself is listed, but it is no file. -/
theorem scan_of_resolve {place : Place}
    (hp : t.resolve true p = .ok (.taken place .directory)) :
    t.scan p = sortPaths ((t.pathsBelow place p).filter fun q => t.isFile q && q.isVideo) := by
  have hself : t.isFile p = false := isFile_of_isDirectory (isDirectory_iff.mpr ⟨place, hp⟩)
  simp [scan, pathsFrom, hp, hself]

theorem isScan_scan (h : t.isDirectory p = true) : t.IsScan p (t.scan p) := by
  obtain ⟨place, hp⟩ := isDirectory_iff.mp h
  rw [scan_of_resolve hp]
  constructor
  · have hsublist := (List.filter_sublist (p := fun q => t.isFile q && q.isVideo)
      (l := t.pathsBelow place p)).map Path.components
    exact pairwise_lt_sortPaths ((nodup_components_pathsBelow t place p).sublist hsublist)
  · intro q
    rw [sortPaths, List.mem_mergeSort, List.mem_filter, Bool.and_eq_true, Path.isVideo_iff]
    refine and_congr_left fun hq => ?_
    obtain ⟨q', contents, hfile⟩ := isFile_iff.mp hq.1
    have hlookup : (t.lookup? q).isSome := by
      rw [lookup?_eq_some_iff.mpr ⟨q', hfile⟩]
      rfl
    exact (reaches_iff_mem_pathsBelow hp hlookup).symm

/-- Lists of paths in order are told by their members. -/
theorem eq_of_ordered {found found' : List Path} (h : found.Pairwise fun q q' => q.ranks < q'.ranks)
    (h' : found'.Pairwise fun q q' => q.ranks < q'.ranks) (hmem : ∀ q, q ∈ found ↔ q ∈ found') :
    found = found' := by
  have : Std.Irrefl fun q q' : Path => q.ranks < q'.ranks := ⟨fun q => lt_irrefl q.ranks⟩
  have : Std.Antisymm fun q q' : Path => q.ranks < q'.ranks :=
    ⟨fun _ _ hlt hgt => absurd (hlt.trans hgt) (lt_irrefl _)⟩
  exact h.eq_of_mem_iff h' hmem

theorem IsScan.unique {found found' : List Path} (h : t.IsScan p found)
    (h' : t.IsScan p found') : found = found' :=
  eq_of_ordered h.ordered h'.ordered fun q => (h.mem_iff q).trans (h'.mem_iff q).symm

/-- The videos that are listed, in any order, are what is found once they are in order. -/
theorem scan_eq_of_perm {found : List Path} (h : t.isDirectory p = true)
    (hordered : found.Pairwise fun q q' => q.ranks < q'.ranks)
    (hperm : ((t.pathsFrom p).filter fun q => t.isFile q && q.isVideo).Perm found) :
    t.scan p = found := by
  refine eq_of_ordered (isScan_scan h).ordered hordered fun q => ?_
  rw [scan, sortPaths, List.mem_mergeSort, hperm.mem_iff]

theorem scan_eq_iff {found : List Path} (h : t.isDirectory p = true) :
    t.scan p = found ↔ t.IsScan p found := by
  refine ⟨?_, (isScan_scan h).unique⟩
  rintro rfl
  exact isScan_scan h

/-! ## A list of paths -/

/-- What paths are collected to, one after another. The rules do not invoke the search. -/
inductive Collects (t : FileTree) : List Path → Inputs → Prop where
  | nil : Collects t [] ⟨[], [], []⟩
  | directory {p paths inputs found} (hp : t.isDirectory p = true) (hfound : t.IsScan p found)
      (h : Collects t paths inputs) :
      Collects t (p :: paths) { inputs with
        files := found ++ inputs.files
        searched := (p, found.length) :: inputs.searched }
  | file {p paths inputs} (hp : t.isFile p = true) (h : Collects t paths inputs) :
      Collects t (p :: paths) { inputs with files := p :: inputs.files }
  | missing {p paths inputs} (hd : t.isDirectory p = false) (hf : t.isFile p = false)
      (h : Collects t paths inputs) :
      Collects t (p :: paths) { inputs with missing := p :: inputs.missing }

theorem Collects.collect_eq {paths : List Path} {inputs : Inputs} (h : t.Collects paths inputs) :
    t.collect paths = inputs := by
  induction h with
  | nil => rfl
  | directory hp hfound _ ih =>
    subst ih
    simp [collect, hp, (scan_eq_iff hp).mpr hfound]
  | @file p paths inputs hp _ ih =>
    subst ih
    have hd : t.isDirectory p = false := by
      cases hd : t.isDirectory p with
      | false => rfl
      | true => rw [isFile_of_isDirectory hd] at hp; cases hp
    simp [collect, hp, hd]
  | missing hd hf _ ih =>
    subst ih
    simp [collect, hd, hf]

theorem collects_collect (t : FileTree) (paths : List Path) :
    t.Collects paths (t.collect paths) := by
  induction paths with
  | nil => exact .nil
  | cons p paths ih =>
    cases hd : t.isDirectory p with
    | true =>
      have h := Collects.directory hd (isScan_scan hd) ih
      rwa [← h.collect_eq] at h
    | false =>
      cases hf : t.isFile p with
      | true =>
        have h := Collects.file hf ih
        rwa [← h.collect_eq] at h
      | false =>
        have h := Collects.missing hd hf ih
        rwa [← h.collect_eq] at h

end FileTree

/-- The paths that are given are collected one after another, each of them being a file, a directory or
missing. In a directory exactly the videos below it are found, each of them once and in order. -/
theorem inputs_collected (t : FileTree) :
    (∀ p, t.isDirectory p = true → ∀ found, t.scan p = found ↔ t.IsScan p found) ∧
    ∀ paths inputs, t.collect paths = inputs ↔ t.Collects paths inputs := by
  refine ⟨fun p hp found => FileTree.scan_eq_iff hp, fun paths inputs => ?_⟩
  refine ⟨?_, FileTree.Collects.collect_eq⟩
  rintro rfl
  exact t.collects_collect paths

/-- Files with a directory of videos: in it another directory, a link to a video, a link back to the
directory itself, and files whose names are not those of videos. -/
def FileTree.library : FileTree where
  entries := [([Text.Utf8.encode "v"], .directory),
    ([Text.Utf8.encode "v", Text.Utf8.encode "a b.mkv"], .file []),
    ([Text.Utf8.encode "v", Text.Utf8.encode "a"], .directory),
    ([Text.Utf8.encode "v", Text.Utf8.encode "a", Text.Utf8.encode "z.MP4"], .file []),
    ([Text.Utf8.encode "v", Text.Utf8.encode "copy.ts"], .link (.ofString "a/z.MP4")),
    ([Text.Utf8.encode "v", Text.Utf8.encode "again.ts"], .link (.ofString "../v")),
    ([Text.Utf8.encode "v", Text.Utf8.encode ".mp4"], .file []),
    ([Text.Utf8.encode "v", [0x78, 0x2E, 0xFF]], .file []),
    ([Text.Utf8.encode "v", Text.Utf8.encode "notes.txt"], .file [])]
  current := []
  unique := by decide
  placed := by
    intro e he
    simp only [List.mem_cons, List.not_mem_nil, or_false] at he
    rcases he with rfl | rfl | rfl | rfl | rfl | rfl | rfl | rfl | rfl
    · exact ⟨[], _, rfl, by decide, .inl rfl⟩
    · exact ⟨[Text.Utf8.encode "v"], _, rfl, by decide, .inr (by simp)⟩
    · exact ⟨[Text.Utf8.encode "v"], _, rfl, by decide, .inr (by simp)⟩
    · exact ⟨[Text.Utf8.encode "v", Text.Utf8.encode "a"], _, rfl, by decide, .inr (by simp)⟩
    all_goals exact ⟨[Text.Utf8.encode "v"], _, rfl, by decide, .inr (by simp)⟩

theorem inputs_collected_library :
    let found := [Path.ofString "v/a/z.MP4", .ofString "v/a b.mkv", .ofString "v/copy.ts"]
    let paths := [Path.ofString "ghost.mp4", .ofString "v", .ofString "v/notes.txt"]
    let inputs : Inputs := {
      files := found ++ [.ofString "v/notes.txt"]
      missing := [.ofString "ghost.mp4"]
      searched := [(.ofString "v", 3)] }
    FileTree.library.isDirectory (.ofString "v") = true ∧
    FileTree.library.IsScan (.ofString "v") found ∧
    FileTree.library.Collects paths inputs ∧ FileTree.library.collect paths = inputs := by
  intro found paths inputs
  have hdirectory : FileTree.library.isDirectory (.ofString "v") = true := by decide +kernel
  have hscan : FileTree.library.scan (.ofString "v") = found :=
    FileTree.scan_eq_of_perm hdirectory (by decide +kernel) (by decide +kernel)
  obtain ⟨hscans, hcollects⟩ := inputs_collected .library
  have hfound := (hscans _ hdirectory _).mp hscan
  have hcollected : FileTree.library.Collects paths inputs :=
    .missing (by decide +kernel) (by decide +kernel)
      (.directory hdirectory hfound (.file (by decide +kernel) .nil))
  exact ⟨hdirectory, hfound, hcollected, (hcollects _ _).mpr hcollected⟩

end Transcode
