import Mathlib.Data.List.Induction
import Mathlib.Data.List.Nodup
import Transcode.Proofs.FileTree

/-! # Paths below a directory

Which paths lie below a directory, told by what the directories on the way hold. Every entry is at the
end of one of these paths at most, and no link is followed on the way there. -/

namespace Transcode.FileTree

open Text (Bytes)

/-- The paths below a directory: those of its entries, and those of the entries of the directories
among them. A link to a directory is an entry, but it is not one of these directories. -/
inductive Reaches (t : FileTree) (p : Path) : Path → Prop where
  | entry {place name} (hp : t.resolve true p = .ok (.taken place .directory))
      (hn : (t.node? (place ++ [name])).isSome) : Reaches t p (p.join ⟨name⟩)
  | deeper {q place name} (h : Reaches t p q)
      (hq : t.resolve false q = .ok (.taken place .directory))
      (hn : (t.node? (place ++ [name])).isSome) : Reaches t p (q.join ⟨name⟩)

variable {t : FileTree} {follow : Bool} {p dir : Path} {place : Place} {names : List Bytes}
  {name : Bytes} {node : Node}

/-! ## Entries -/

theorem mem_entries_iff (hp : place ≠ []) :
    (place, node) ∈ t.entries ↔ t.node? place = some node := by
  refine ⟨fun h => ?_, mem_of_node?_eq_some hp⟩
  cases hn : t.node? place with
  | none => exact absurd (List.mem_map_of_mem h) (not_mem_of_node?_eq_none hn)
  | some node' =>
    have hsame := List.inj_on_of_nodup_map t.unique h (mem_of_node?_eq_some hp hn) rfl
    rw [(Prod.mk.inj hsame).2]

/-- What has a name lies in a directory. -/
theorem node?_of_concat (h : t.node? (place ++ [name]) = some node) :
    isEntryName name = true ∧ t.node? place = some .directory := by
  obtain ⟨parent, last, hplace, hname, hparent⟩ := t.placed _ (mem_of_node?_eq_some (by simp) h)
  obtain ⟨rfl, hlast⟩ := List.append_inj' hplace rfl
  obtain rfl := (List.cons.inj hlast).1
  refine ⟨hname, ?_⟩
  rcases hparent with rfl | hparent
  · rfl
  · by_cases hroot : place = []
    · simp [node?, hroot]
    · exact (mem_entries_iff hroot).mp hparent

theorem isEntryName_iff : isEntryName name = true ↔
    Path.slash ∉ name ∧ Path.isIdle name = false ∧ name ≠ [Path.dot, Path.dot] := by
  simp [isEntryName, and_assoc]

theorem bytes_ne_nil_of_resolve {spot : Spot} (h : t.resolve follow p = .ok spot) :
    p.bytes ≠ [] := by
  simpa using (resolve_eq_ok_iff.mp h).1.empty

/-! ## Names below a directory -/

/-- A name leads to what has it, if that is no link to be followed. -/
theorem follows_name_iff {links : Nat} {q : Place} {node' : Node}
    (hn : t.node? (place ++ [name]) = some node)
    (hl : follow = false ∨ ∀ target, node ≠ .link target) :
    t.Follows follow links place [name] (.taken q node') ↔
      name.length ≤ maxName ∧ q = place ++ [name] ∧ node' = node := by
  obtain ⟨hentry, hd⟩ := node?_of_concat hn
  obtain ⟨-, hidle, hup⟩ := isEntryName_iff.mp hentry
  constructor
  · intro h
    cases h with
    | idle _ hs => rw [hidle] at hs; cases hs
    | up => exact absurd rfl hup
    | kept _ hs hn' => exact ⟨hs.length, rfl, Option.some.inj (hn'.symm.trans hn)⟩
    | link _ _ hn' hf =>
      obtain rfl := Option.some.inj (hn'.symm.trans hn)
      rcases hl with rfl | hl
      · cases hf
      · exact absurd rfl (hl _)
    | enter _ hs hn' _ h =>
      cases h with
      | arrived harrived => exact ⟨hs.length, rfl, Option.some.inj (harrived.symm.trans hn)⟩
  · rintro ⟨hlength, rfl, rfl⟩
    have hs : IsName name := ⟨hidle, hup, hlength⟩
    cases node' with
    | link target => exact .kept hd hs hn (hl.resolve_right fun h => h target rfl)
    | file | directory => exact .enter hd hs hn (by simp) (.arrived hn)

/-- A name below a directory leads to the entry that has it. -/
theorem resolve_join_iff {q : Place} {node' : Node}
    (hdir : t.resolve true dir = .ok (.taken place .directory))
    (hn : t.node? (place ++ [name]) = some node)
    (hl : follow = false ∨ ∀ target, node ≠ .link target) :
    t.resolve follow (dir.join ⟨name⟩) = .ok (.taken q node') ↔
      IsPassable (dir.join ⟨name⟩) ∧ name.length ≤ maxName ∧ q = place ++ [name] ∧
        node' = node := by
  have hbytes := bytes_ne_nil_of_resolve hdir
  have hslash := (isEntryName_iff.mp (node?_of_concat hn).1).1
  obtain ⟨start, steps, hself, hbelow⟩ := t.exists_follows_join hbytes hslash
  have hfollows := ((hself place).mp hdir).2
  rw [hbelow]
  refine and_congr_right fun _ => ⟨fun h => ?_, fun h => ?_⟩
  · obtain ⟨left, q', hq', hleft⟩ := h.exists_of_append (by simp)
    obtain ⟨rfl, -⟩ := Spot.taken.inj (Except.ok.inj (hfollows.walk_eq.symm.trans hq'.walk_eq))
    exact (follows_name_iff hn hl).mp hleft
  · obtain ⟨left, hmore⟩ := hfollows.exists_append
    exact hmore (by simp) ((follows_name_iff hn hl).mpr h)

/-! ## Ways down -/

@[simp] theorem extend_nil (p : Path) : extend p [] = p := rfl

@[simp] theorem extend_concat (p : Path) (names : List Bytes) (name : Bytes) :
    extend p (names ++ [name]) = (extend p names).join ⟨name⟩ := by
  simp [extend]

theorem bytes_extend_ne_nil (hp : p.bytes ≠ []) (names : List Bytes) :
    (extend p names).bytes ≠ [] := by
  induction names using List.reverseRecOn with
  | nil => exact hp
  | append_singleton names name ih =>
    rw [extend_concat, Path.join]
    split
    · rename_i habsolute
      intro hempty
      rw [show (⟨name⟩ : Path) = ⟨[]⟩ from congrArg Path.mk hempty] at habsolute
      cases habsolute
    · split <;> simp [ih]

/-- The components of a path below a directory end with the names on the way. -/
theorem components_extend (h : (t.node? (place ++ names)).isSome) :
    (extend p names).components = p.components ++ names.map .name := by
  induction names using List.reverseRecOn with
  | nil => simp
  | append_singleton names name ih =>
    rw [← List.append_assoc, Option.isSome_iff_exists] at h
    obtain ⟨node, hn⟩ := h
    obtain ⟨hentry, hparent⟩ := node?_of_concat hn
    obtain ⟨hslash, hidle, hup⟩ := isEntryName_iff.mp hentry
    rw [extend_concat, Path.components_join_of_name hslash hidle, ih (by rw [hparent]; rfl)]
    simp [Path.Component.ofPart, hup]

/-- Where something is found at the end of a way down, the path before it leads to a directory. -/
theorem isDirectory_of_extend {q : Place} {node' : Node} (hp : p.bytes ≠ [])
    (hn : t.node? (place ++ names ++ [name]) = some node)
    (h : t.resolve follow (extend p (names ++ [name])) = .ok (.taken q node')) :
    t.isDirectory (extend p names) = true := by
  have hslash := (isEntryName_iff.mp (node?_of_concat hn).1).1
  rw [extend_concat] at h
  exact isDirectory_of_join (bytes_extend_ne_nil hp names) hslash h

/-- The directories on a way down are found in their places. -/
theorem resolve_extend (hp : t.resolve true p = .ok (.taken place .directory))
    (hn : t.node? (place ++ names) = some .directory)
    (hd : t.isDirectory (extend p names) = true) :
    t.resolve true (extend p names) = .ok (.taken (place ++ names) .directory) := by
  induction names using List.reverseRecOn with
  | nil => simpa using hp
  | append_singleton names name ih =>
    rw [← List.append_assoc] at hn
    obtain ⟨q, hq⟩ := isDirectory_iff.mp hd
    have hdir := ih (node?_of_concat hn).2
      (isDirectory_of_extend (bytes_ne_nil_of_resolve hp) hn hq)
    rw [extend_concat] at hq ⊢
    obtain ⟨-, -, hsame, -⟩ := (resolve_join_iff hdir hn (.inr (by simp))).mp hq
    rw [← List.append_assoc, ← hsame]
    exact hq

/-- An entry to which the names on the way lead is reached. -/
theorem reaches_extend (hp : t.resolve true p = .ok (.taken place .directory))
    (hn : (t.node? (place ++ names ++ [name])).isSome)
    (hd : t.isDirectory (extend p names) = true) :
    t.Reaches p (extend p (names ++ [name])) := by
  induction names using List.reverseRecOn generalizing name with
  | nil => exact .entry hp (by simpa using hn)
  | append_singleton names last ih =>
    obtain ⟨node, hnode⟩ := Option.isSome_iff_exists.mp hn
    have hlast := (node?_of_concat hnode).2
    have hself := resolve_extend hp hlast hd
    rw [← List.append_assoc] at hlast
    have habove := isDirectory_of_extend (bytes_ne_nil_of_resolve hp) hlast hself
    have hdir := resolve_extend hp (node?_of_concat hlast).2 habove
    -- The directory is no link, so it is the same one whether links are followed or not.
    have hunlinked : t.resolve false (extend p (names ++ [last])) =
        .ok (.taken (place ++ (names ++ [last])) .directory) := by
      rw [extend_concat] at hself ⊢
      exact (resolve_join_iff hdir hlast (.inl rfl)).mpr
        ((resolve_join_iff hdir hlast (.inr (by simp))).mp hself)
    rw [extend_concat]
    exact .deeper (ih (by rw [hlast]; rfl) habove) hunlinked hn

/-- The way down to a path that is reached. -/
theorem Reaches.exists_extend {q : Path} (hp : t.resolve true p = .ok (.taken place .directory))
    (h : t.Reaches p q) : ∃ names name, q = extend p (names ++ [name]) ∧
      t.resolve true (extend p names) = .ok (.taken (place ++ names) .directory) ∧
      (t.node? (place ++ names ++ [name])).isSome := by
  induction h with
  | @entry place' name hp' hn =>
    obtain ⟨rfl, -⟩ := Spot.taken.inj (Except.ok.inj (hp.symm.trans hp'))
    exact ⟨[], name, rfl, by simpa using hp, by simpa using hn⟩
  | @deeper q place' name _ hq hn ih =>
    obtain ⟨names, last, rfl, hdir, hlast⟩ := ih
    obtain ⟨node, hnode⟩ := Option.isSome_iff_exists.mp hlast
    rw [extend_concat] at hq
    obtain ⟨hpass, hlength, rfl, rfl⟩ := (resolve_join_iff hdir hnode (.inl rfl)).mp hq
    refine ⟨names ++ [last], name, by rw [extend_concat, extend_concat, extend_concat], ?_, ?_⟩
    · rw [extend_concat, ← List.append_assoc]
      exact (resolve_join_iff hdir hnode (.inr (by simp))).mpr
        ⟨hpass, hlength, rfl, rfl⟩
    · rwa [← List.append_assoc]

/-! ## The listing -/

theorem below?_eq_some_iff {top : Place} :
    below? top place = some names ↔ place = top ++ names ∧ names ≠ [] := by
  constructor
  · intro h
    rw [below?] at h
    split at h
    · rename_i hbelow
      obtain ⟨hstart, hlength⟩ := Bool.and_eq_true_iff.mp hbelow
      obtain ⟨rest, rfl⟩ := List.isPrefixOf_iff_prefix.mp hstart
      rw [List.drop_left] at h
      obtain rfl := Option.some.inj h
      refine ⟨rfl, ?_⟩
      rintro rfl
      simp at hlength
    · cases h
  · rintro ⟨rfl, hnames⟩
    have hlength := List.length_pos_iff.mpr hnames
    simp [below?, hlength]

theorem mem_pathsBelow_iff {q : Path} : q ∈ t.pathsBelow place p ↔
    ∃ names name, q = extend p (names ++ [name]) ∧
      (t.node? (place ++ names ++ [name])).isSome := by
  simp only [pathsBelow, List.mem_filterMap, Option.map_eq_some_iff, below?_eq_some_iff]
  constructor
  · rintro ⟨⟨_, node⟩, hmem, all, ⟨rfl, hall⟩, rfl⟩
    obtain rfl | ⟨names, name, rfl⟩ := List.eq_nil_or_concat' all
    · exact absurd rfl hall
    rw [mem_entries_iff (by simp), ← List.append_assoc] at hmem
    exact ⟨names, name, rfl, by rw [hmem]; rfl⟩
  · rintro ⟨names, name, rfl, hn⟩
    obtain ⟨node, hnode⟩ := Option.isSome_iff_exists.mp hn
    rw [List.append_assoc] at hnode
    exact ⟨⟨_, node⟩, (mem_entries_iff (by simp)).mpr hnode, _, ⟨rfl, by simp⟩, rfl⟩

/-- What is listed below a directory and leads anywhere is what is reached and leads anywhere. -/
theorem reaches_iff_mem_pathsBelow {q : Path}
    (hp : t.resolve true p = .ok (.taken place .directory)) (hq : (t.lookup? q).isSome) :
    t.Reaches p q ↔ q ∈ t.pathsBelow place p := by
  rw [mem_pathsBelow_iff]
  constructor
  · intro h
    obtain ⟨names, name, hextend, -, hn⟩ := h.exists_extend hp
    exact ⟨names, name, hextend, hn⟩
  · rintro ⟨names, name, rfl, hn⟩
    obtain ⟨node, hnode⟩ := Option.isSome_iff_exists.mp hn
    obtain ⟨found, hfound⟩ := Option.isSome_iff_exists.mp hq
    obtain ⟨q, hq⟩ := lookup?_eq_some_iff.mp hfound
    exact reaches_extend hp hn (isDirectory_of_extend (bytes_ne_nil_of_resolve hp) hnode hq)

/-- No two paths that are listed have the same components. -/
theorem nodup_components_pathsBelow (t : FileTree) (place : Place) (p : Path) :
    ((t.pathsBelow place p).map Path.components).Nodup := by
  rw [List.Nodup, List.pairwise_map, pathsBelow, List.pairwise_filterMap]
  refine (List.pairwise_map.mp t.unique).imp_of_mem ?_
  rintro ⟨place₁, node₁⟩ ⟨place₂, node₂⟩ hmem₁ hmem₂ hne q₁ hq₁ q₂ hq₂ hsame
  simp only [Option.map_eq_some_iff, below?_eq_some_iff] at hq₁ hq₂
  obtain ⟨names₁, ⟨rfl, h₁⟩, rfl⟩ := hq₁
  obtain ⟨names₂, ⟨rfl, h₂⟩, rfl⟩ := hq₂
  rw [mem_entries_iff (by simp [h₁])] at hmem₁
  rw [mem_entries_iff (by simp [h₂])] at hmem₂
  rw [components_extend (by rw [hmem₁]; rfl), components_extend (by rw [hmem₂]; rfl)] at hsame
  have hnames : names₁ = names₂ :=
    (List.map_inj_right fun _ _ => Path.Component.name.inj).mp (List.append_cancel_left hsame)
  exact hne (by rw [hnames])

end Transcode.FileTree
