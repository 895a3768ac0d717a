import Transcode.Proofs.FileTree

/-! # What differs between two trees

Files are written and directories are created where paths lead, and nothing else in a tree changes. -/

namespace Transcode

open Text (Bytes)

/-- A path or one of those above it. -/
inductive Path.IsAtOrAbove : Path → Path → Prop where
  | self (p : Path) : IsAtOrAbove p p
  | above {p q r : Path} (parent : r.parent? = some q) (h : IsAtOrAbove p q) : IsAtOrAbove p r

namespace FileTree

variable {t t' t'' : FileTree} {files directories : Path → Prop} {p : Path}

/-! ## Trees that keep everything -/

theorem Keeps.refl (t : FileTree) : t.Keeps t :=
  (Extends.refl t).keeps

theorem Keeps.trans (h : t.Keeps t') (h' : t'.Keeps t'') : t.Keeps t'' := by
  refine ⟨h'.current.trans h.current, fun {q node} hn => ?_⟩
  obtain ⟨contents, hn⟩ := h.node? hn
  obtain ⟨contents', hn⟩ := h'.node? hn
  cases node with
  | file | directory | link => exact ⟨contents', hn⟩

theorem Keeps.isDirectory (h : t.Keeps t') (hp : t.isDirectory p = true) :
    t'.isDirectory p = true := by
  obtain ⟨place, hr⟩ := isDirectory_iff.mp hp
  exact isDirectory_iff.mpr ⟨place, h.resolve hr (h.directory (node?_of_resolve hr))⟩

/-! ## Changed places -/

/-- A place that is changed at most in one of two ways: it holds a file now to which one of some paths
leads, or it was free and holds a directory now to which one of some paths leads. -/
inductive PlaceChange (files directories : Path → Prop) (t t' : FileTree) (q : Place) : Prop where
  | kept (same : t'.node? q = t.node? q)
  | written {p : Path} {contents : Bytes} (path : files p)
      (leads : t'.resolve true p = .ok (.taken q (.file contents)))
  | created {p : Path} (free : t.node? q = none) (path : directories p)
      (leads : t'.resolve true p = .ok (.taken q .directory))

/-- What differs between two trees is that files were written to which some paths lead, and that
directories were created to which some other paths lead. -/
structure ChangedAt (files directories : Path → Prop) (t t' : FileTree) : Prop where
  keeps : t.Keeps t'
  places : ∀ q, PlaceChange files directories t t' q

theorem ChangedAt.refl (t : FileTree) : ChangedAt files directories t t :=
  ⟨.refl t, fun _ => .kept rfl⟩

theorem ChangedAt.mono {files' directories' : Path → Prop}
    (h : ChangedAt files directories t t') (hfiles : ∀ p, files p → files' p)
    (hdirectories : ∀ p, directories p → directories' p) : ChangedAt files' directories' t t' := by
  refine ⟨h.keeps, fun q => ?_⟩
  cases h.places q with
  | kept hsame => exact .kept hsame
  | written hp hr => exact .written (hfiles _ hp) hr
  | created hfree hp hr => exact .created hfree (hdirectories _ hp) hr

theorem ChangedAt.trans (h : ChangedAt files directories t t')
    (h' : ChangedAt files directories t' t'') : ChangedAt files directories t t'' := by
  refine ⟨h.keeps.trans h'.keeps, fun q => ?_⟩
  cases h'.places q with
  | written hp hr => exact .written hp hr
  | created hfree hp hr =>
    refine .created ?_ hp hr
    cases hq : t.node? q with
    | none => rfl
    | some node =>
      obtain ⟨contents, hn⟩ := h.keeps.node? hq
      rw [hfree] at hn
      cases hn
  | kept hsame =>
    -- The path still leads to the place, and the place holds what it has held in between.
    cases h.places q with
    | kept hsame' => exact .kept (hsame.trans hsame')
    | written hp hr => exact .written hp (h'.keeps.resolve hr (hsame.trans (node?_of_resolve hr)))
    | created hfree hp hr =>
      exact .created hfree hp (h'.keeps.resolve hr (hsame.trans (node?_of_resolve hr)))

theorem changedAt_write {contents : Bytes} (hp : files p) (h : t.write p contents = .ok t') :
    ChangedAt files directories t t' := by
  obtain ⟨hk, place, hr, hothers⟩ := resolve_of_write h
  refine ⟨hk, fun q => ?_⟩
  by_cases hq : q = place
  · exact .written hp (hq ▸ hr)
  · exact .kept (hothers q hq)

theorem changedAt_createDirectory (hp : directories p) (h : t.createDirectory p = .ok t') :
    ChangedAt files directories t t' := by
  obtain ⟨parent, name, slashed, hfree, hadd⟩ := resolve_of_create h
  have hk := (extends_add hadd).keeps
  refine ⟨hk, fun q => ?_⟩
  have hnode := node?_add hadd q
  split at hnode
  · rename_i hq
    subst hq
    exact .created (node?_of_add hadd).2 hp (hk.resolve_free hfree hnode (by simp) fun _ => rfl)
  · exact .kept hnode

theorem changedAt_after {result : Except SystemFault FileTree}
    (h : ∀ t', result = .ok t' → ChangedAt files directories t t') :
    ChangedAt files directories t (t.after result).2 := by
  cases result with
  | error fault => exact .refl t
  | ok t' => exact h t' rfl

theorem changedAt_provideDirectory (hp : directories p) (h : t.provideDirectory p = .ok t') :
    ChangedAt files directories t t' := by
  rw [provideDirectory] at h
  split at h
  · rename_i hcreate
    obtain rfl := Except.ok.inj h
    exact changedAt_createDirectory hp hcreate
  · split at h
    · obtain rfl := Except.ok.inj h
      exact .refl t
    · cases h

/-- Whether it succeeds or not, a directory is created only at the path or at one above it. -/
theorem changedAt_provideDirectories (levels : Nat) (t : FileTree)
    (hp : ∀ q : Path, q.IsAtOrAbove p → directories q) :
    ChangedAt files directories t (t.provideDirectories levels p).2 := by
  have hself := hp p (.self p)
  induction levels generalizing p t with
  | zero => exact .refl t
  | succ levels ih =>
    rw [provideDirectories]
    split
    · exact .refl t
    split
    · rename_i above _ habove
      have hmore : ∀ q : Path, q.IsAtOrAbove above → directories q :=
        fun q hq => hp q (.above habove hq)
      have hfirst := ih t hmore (hmore above (.self above))
      split
      · rename_i hcreated
        rw [hcreated] at hfirst
        exact hfirst.trans (changedAt_after fun _ => changedAt_provideDirectory hself)
      · rename_i hcreated
        rwa [hcreated] at hfirst
    · exact changedAt_after fun _ => changedAt_provideDirectory hself

theorem changedAt_createDirectories (t : FileTree)
    (hp : ∀ q : Path, q.IsAtOrAbove p → directories q) :
    ChangedAt files directories t (t.createDirectories p).2 :=
  changedAt_provideDirectories _ t hp

end FileTree

end Transcode
