import Transcode.FileTree
import Transcode.Proofs.Path

/-! # Following paths

Rules for where a path leads, and what a change of a file tree means for the paths in it. -/

namespace Transcode.FileTree

open Text (Bytes)

/-- A step that leads from a directory to an entry of it. -/
structure IsName (step : Bytes) : Prop where
  idle : Path.isIdle step = false
  up : step ≠ [Path.dot, Path.dot]
  length : step.length ≤ maxName

/-- Steps that lead from a place to a spot. The rules do not invoke the walk. -/
inductive Follows (t : FileTree) (follow : Bool) : Nat → Place → List Bytes → Spot → Prop where
  | arrived {links here node} (hn : t.node? here = some node) :
      Follows t follow links here [] (.taken here node)
  | idle {links here step rest spot} (hd : t.node? here = some .directory)
      (hs : Path.isIdle step = true) (h : Follows t follow links here rest spot) :
      Follows t follow links here (step :: rest) spot
  | up {links here rest spot} (hd : t.node? here = some .directory)
      (h : Follows t follow links here.dropLast rest spot) :
      Follows t follow links here ([Path.dot, Path.dot] :: rest) spot
  | free {links here step rest} (hd : t.node? here = some .directory) (hs : IsName step)
      (hn : t.node? (here ++ [step]) = none) (hrest : rest.all List.isEmpty = true) :
      Follows t follow links here (step :: rest) (.free here step !rest.isEmpty)
  | kept {links here step target} (hd : t.node? here = some .directory) (hs : IsName step)
      (hn : t.node? (here ++ [step]) = some (.link target)) (hf : follow = false) :
      Follows t follow links here [step] (.taken (here ++ [step]) (.link target))
  | link {links here step rest target spot} (hd : t.node? here = some .directory)
      (hs : IsName step) (hn : t.node? (here ++ [step]) = some (.link target))
      (hf : (rest.isEmpty && !follow) = false) (ht : target.bytes.isEmpty = false)
      (h : Follows t follow links (if target.isAbsolute then [] else here)
        (Path.splitSlashes target.bytes ++ rest) spot) :
      Follows t follow (links + 1) here (step :: rest) spot
  | enter {links here step rest node spot} (hd : t.node? here = some .directory)
      (hs : IsName step) (hn : t.node? (here ++ [step]) = some node)
      (hl : ∀ target, node ≠ .link target)
      (h : Follows t follow links (here ++ [step]) rest spot) :
      Follows t follow links here (step :: rest) spot

variable {t : FileTree} {follow : Bool}

theorem walk_nil (links : Nat) (here : Place) : t.walk follow links here [] =
    match t.node? here with
    | some node => .ok (.taken here node)
    | none => .error .notFound := by
  cases links <;> rfl

/-- What a step leads to, whatever the number of links that may be followed. -/
theorem walk_cons (links : Nat) (here : Place) (step : Bytes) (rest : List Bytes) :
    t.walk follow links here (step :: rest) =
      if t.node? here ≠ some .directory then .error .notDirectory
      else if Path.isIdle step then t.walk follow links here rest
      else if step = [Path.dot, Path.dot] then t.walk follow links here.dropLast rest
      else if maxName < step.length then .error .nameTooLong
      else match t.node? (here ++ [step]) with
        | none =>
          if rest.all List.isEmpty then .ok (.free here step !rest.isEmpty) else .error .notFound
        | some (.link target) =>
          if rest.isEmpty && !follow then .ok (.taken (here ++ [step]) (.link target))
          else if target.bytes.isEmpty then .error .notFound
          else match links with
            | 0 => .error .linkLoop
            | links + 1 => t.walk follow links (if target.isAbsolute then [] else here)
              (Path.splitSlashes target.bytes ++ rest)
        | some _ => t.walk follow links (here ++ [step]) rest := by
  cases links <;> rfl

theorem Follows.walk_eq {links : Nat} {here : Place} {steps : List Bytes} {spot : Spot}
    (h : t.Follows follow links here steps spot) : t.walk follow links here steps = .ok spot := by
  induction h with
  | arrived hn => rw [walk_nil, hn]
  | idle hd hs _ ih =>
    rw [walk_cons, if_neg (by simp [hd]), if_pos hs]
    exact ih
  | up hd _ ih =>
    rw [walk_cons, if_neg (by simp [hd]), if_neg (by decide), if_pos rfl]
    exact ih
  | free hd hs hn hrest =>
    rw [walk_cons, if_neg (by simp [hd]), if_neg (by simp [hs.idle]), if_neg hs.up,
      if_neg (Nat.not_lt.mpr hs.length), hn]
    simp [hrest]
  | kept hd hs hn hf =>
    rw [walk_cons, if_neg (by simp [hd]), if_neg (by simp [hs.idle]), if_neg hs.up,
      if_neg (Nat.not_lt.mpr hs.length), hn]
    simp [hf]
  | link hd hs hn hf ht _ ih =>
    rw [walk_cons, if_neg (by simp [hd]), if_neg (by simp [hs.idle]), if_neg hs.up,
      if_neg (Nat.not_lt.mpr hs.length), hn]
    simp only [hf, ht]
    exact ih
  | enter hd hs hn hl _ ih =>
    rw [walk_cons, if_neg (by simp [hd]), if_neg (by simp [hs.idle]), if_neg hs.up,
      if_neg (Nat.not_lt.mpr hs.length), hn]
    rename_i node _ _
    cases node with
    | link target => exact absurd rfl (hl target)
    | file contents => exact ih
    | directory => exact ih

/-- Steps are followed up to a link by the rules, and beyond it if the rules lead on from there. -/
theorem follows_of_walkSteps {links : Nat} {onward : Place → List Bytes → Except SystemFault Spot}
    (honward : ∀ {here steps spot}, onward here steps = .ok spot →
      ∃ left, links = left + 1 ∧ t.Follows follow left here steps spot)
    {here : Place} {steps : List Bytes} {spot : Spot}
    (h : t.walkSteps follow onward here steps = .ok spot) :
    t.Follows follow links here steps spot := by
  fun_induction FileTree.walkSteps t follow onward here steps with
  | case1 here node hn =>
    obtain rfl := Except.ok.inj h
    exact .arrived hn
  | case2 => cases h
  | case3 => cases h
  | case4 here step rest hd hs ih => exact .idle (by simpa using hd) hs (ih h)
  | case5 here rest hd _ ih => exact .up (by simpa using hd) (ih h)
  | case6 => cases h
  | case7 here step rest hd hi hu hlong hn hrest =>
    obtain rfl := Except.ok.inj h
    exact .free (by simpa using hd) ⟨by simpa using hi, hu, by omega⟩ hn hrest
  | case8 => cases h
  | case9 here step rest hd hi hu hlong target hn hf =>
    obtain rfl := Except.ok.inj h
    simp only [Bool.and_eq_true, List.isEmpty_iff, Bool.not_eq_true'] at hf
    obtain ⟨rfl, hf⟩ := hf
    exact .kept (by simpa using hd) ⟨by simpa using hi, hu, by omega⟩ hn hf
  | case10 => cases h
  | case11 here step rest hd hi hu hlong target hn hf ht =>
    obtain ⟨left, rfl, hleft⟩ := honward h
    exact .link (by simpa using hd) ⟨by simpa using hi, hu, by omega⟩ hn (by simpa using hf)
      (by simpa using ht) hleft
  | case12 here step rest hd hi hu hlong node hl hn ih =>
    exact .enter (by simpa using hd) ⟨by simpa using hi, hu, by omega⟩ hn (fun target => hl target)
      (ih h)

theorem follows_of_walk {links : Nat} {here : Place} {steps : List Bytes} {spot : Spot}
    (h : t.walk follow links here steps = .ok spot) : t.Follows follow links here steps spot := by
  induction links generalizing here steps spot with
  | zero => exact follows_of_walkSteps (fun hnone => by cases hnone) h
  | succ links ih => exact follows_of_walkSteps (fun hnext => ⟨links, rfl, ih hnext⟩) h

theorem walk_eq_ok_iff {links : Nat} {here : Place} {steps : List Bytes} {spot : Spot} :
    t.walk follow links here steps = .ok spot ↔ t.Follows follow links here steps spot :=
  ⟨follows_of_walk, Follows.walk_eq⟩

/-- A path that can be followed at all. -/
structure IsPassable (p : Path) : Prop where
  zero : p.bytes.contains 0 = false
  empty : p.bytes.isEmpty = false
  length : p.bytes.length ≤ maxPath

theorem resolve_eq_ok_iff {p : Path} {spot : Spot} :
    t.resolve follow p = .ok spot ↔ IsPassable p ∧
      t.Follows follow maxLinks (if p.isAbsolute then [] else t.current)
        (Path.splitSlashes p.bytes) spot := by
  rw [← walk_eq_ok_iff, resolve]
  split
  · rename_i h
    exact ⟨nofun, fun hp => absurd (hp.1.zero.symm.trans h) (by decide)⟩
  split
  · rename_i h
    exact ⟨nofun, fun hp => absurd (hp.1.empty.symm.trans h) (by decide)⟩
  split
  · rename_i h
    exact ⟨nofun, fun hp => absurd hp.1.length (by omega)⟩
  · rename_i hzero hempty hlength
    exact ⟨fun h => ⟨⟨by simpa using hzero, by simpa using hempty, by omega⟩, h⟩, fun h => h.2⟩

/-! ## Changed trees -/

theorem node?_refill (t : FileTree) (place : Place) (contents : Bytes) (q : Place) :
    (t.refill place contents).node? q =
      (t.node? q).map fun node => if q = place then node.refill contents else node := by
  simp only [node?, refill]
  split
  · simp [Node.refill]
  · rw [List.find?_map, Option.map_map, Option.map_map]
    cases hf : t.entries.find? fun e => e.1 == q with
    | none => simp [Function.comp_def, hf]
    | some e =>
      obtain rfl : e.1 = q := by simpa using List.find?_some hf
      simp [Function.comp_def, hf]

theorem node?_add {t t' : FileTree} {parent : Place} {name : Bytes} {node : Node}
    (h : t.add parent name node = .ok t') (q : Place) :
    t'.node? q = if q = parent ++ [name] then some node else t.node? q := by
  simp only [add] at h
  split at h
  · rename_i hfree
    obtain rfl := Except.ok.inj h
    have hne : parent ++ [name] ≠ [] := by simp
    by_cases hq : q = parent ++ [name]
    · subst hq
      have hnone : (t.entries.find? fun e => e.1 == parent ++ [name]) = none := by
        simpa [node?, hne] using hfree.2.1
      simp [node?, hne, List.find?_append, hnone]
    · simp [node?, hq, Ne.symm hq, List.find?_append]
  · cases h

/-- Everything in a tree stays where it is, though files may get other contents. -/
structure Keeps (t t' : FileTree) : Prop where
  current : t'.current = t.current
  node? : ∀ {q node}, t.node? q = some node → ∃ contents, t'.node? q = some (node.refill contents)

theorem Keeps.node?_of_ne_file {t' : FileTree} (hk : t.Keeps t') {q : Place} {node : Node}
    (hn : t.node? q = some node) (hf : ∀ contents, node ≠ .file contents) :
    t'.node? q = some node := by
  obtain ⟨contents, hn'⟩ := hk.node? hn
  cases node with
  | file old => exact absurd rfl (hf old)
  | directory => exact hn'
  | link target => exact hn'

theorem Keeps.directory {t' : FileTree} (hk : t.Keeps t') {q : Place}
    (hd : t.node? q = some .directory) : t'.node? q = some .directory :=
  hk.node?_of_ne_file hd (by simp)

theorem keeps_refill (t : FileTree) (place : Place) (contents : Bytes) :
    t.Keeps (t.refill place contents) := by
  refine ⟨rfl, fun {q node} hn => ?_⟩
  rw [node?_refill, hn, Option.map_some]
  split
  · exact ⟨contents, rfl⟩
  · cases node with
    | file old => exact ⟨old, rfl⟩
    | directory => exact ⟨contents, rfl⟩
    | link target => exact ⟨contents, rfl⟩

/-- A tree with everything of another one in its place. -/
structure Extends (t t' : FileTree) : Prop where
  current : t'.current = t.current
  node? : ∀ {q node}, t.node? q = some node → t'.node? q = some node

theorem Extends.refl (t : FileTree) : t.Extends t :=
  ⟨rfl, id⟩

theorem Extends.keeps {t' : FileTree} (he : t.Extends t') : t.Keeps t' := by
  refine ⟨he.current, fun {q node} hn => ?_⟩
  cases node with
  | file contents => exact ⟨contents, he.node? hn⟩
  | directory => exact ⟨[], he.node? hn⟩
  | link target => exact ⟨[], he.node? hn⟩

theorem node?_of_add {t t' : FileTree} {parent : Place} {name : Bytes} {node : Node}
    (h : t.add parent name node = .ok t') :
    t'.current = t.current ∧ t.node? (parent ++ [name]) = none := by
  simp only [add] at h
  split at h
  · rename_i hfree
    obtain rfl := Except.ok.inj h
    exact ⟨rfl, hfree.2.1⟩
  · cases h

theorem extends_add {t t' : FileTree} {parent : Place} {name : Bytes} {node : Node}
    (h : t.add parent name node = .ok t') : t.Extends t' := by
  obtain ⟨hcurrent, hfree⟩ := node?_of_add h
  refine ⟨hcurrent, fun {q n} hn => ?_⟩
  rw [node?_add h, if_neg]
  · exact hn
  · rintro rfl
    rw [hfree] at hn
    cases hn

/-- The same path leads to the same place, whatever is there now. -/
theorem Follows.keep {t' : FileTree} (hk : t.Keeps t') {links : Nat} {here place : Place}
    {steps : List Bytes} {node node' : Node}
    (h : t.Follows follow links here steps (.taken place node))
    (hn' : t'.node? place = some node') :
    t'.Follows follow links here steps (.taken place node') := by
  generalize hspot : Spot.taken place node = spot at h
  induction h with
  | arrived hn =>
    obtain ⟨rfl, rfl⟩ := Spot.taken.inj hspot
    exact .arrived hn'
  | idle hd hs _ ih => exact .idle (hk.directory hd) hs (ih hspot)
  | up hd _ ih => exact .up (hk.directory hd) (ih hspot)
  | free => cases hspot
  | kept hd hs hn hf =>
    obtain ⟨rfl, rfl⟩ := Spot.taken.inj hspot
    have hlink := hk.node?_of_ne_file hn (by simp)
    obtain rfl := Option.some.inj (hn'.symm.trans hlink)
    exact .kept (hk.directory hd) hs hlink hf
  | link hd hs hn hf ht _ ih =>
    exact .link (hk.directory hd) hs (hk.node?_of_ne_file hn (by simp)) hf ht (ih hspot)
  | @enter links here step rest node spot hd hs hn hl _ ih =>
    obtain ⟨contents, hnode⟩ := hk.node? hn
    refine .enter (hk.directory hd) hs hnode (fun target => ?_) (ih hspot)
    cases node with
    | link target' => exact absurd rfl (hl target')
    | file | directory => simp [Node.refill]

theorem Follows.blanks {links : Nat} {place : Place} (hd : t.node? place = some .directory)
    {blanks : List Bytes} (hblanks : blanks.all List.isEmpty = true) :
    t.Follows follow links place blanks (.taken place .directory) := by
  induction blanks with
  | nil => exact .arrived hd
  | cons blank blanks ih =>
    rw [List.all_cons, Bool.and_eq_true, List.isEmpty_iff] at hblanks
    obtain ⟨rfl, hblanks⟩ := hblanks
    exact .idle hd rfl (ih hblanks)

/-- What was put at a free spot is found there; slashes may follow a directory. -/
theorem Follows.fill {t' : FileTree} (hk : t.Keeps t') {links : Nat} {here parent : Place}
    {name : Bytes} {slashed : Bool} {node : Node} {steps : List Bytes}
    (h : t.Follows follow links here steps (.free parent name slashed))
    (hn' : t'.node? (parent ++ [name]) = some node) (hl : ∀ target, node ≠ .link target)
    (hslashed : slashed = true → node = .directory) :
    t'.Follows follow links here steps (.taken (parent ++ [name]) node) := by
  generalize hspot : Spot.free parent name slashed = spot at h
  induction h with
  | arrived => cases hspot
  | idle hd hs _ ih => exact .idle (hk.directory hd) hs (ih hspot)
  | up hd _ ih => exact .up (hk.directory hd) (ih hspot)
  | @free links here step rest hd hs _ hrest =>
    obtain ⟨rfl, rfl, hlast⟩ := Spot.free.inj hspot
    refine .enter (hk.directory hd) hs hn' hl ?_
    cases rest with
    | nil => exact .arrived hn'
    | cons blank blanks =>
      obtain rfl := hslashed hlast
      exact .blanks hn' hrest
  | kept => cases hspot
  | link hd hs hn hf ht _ ih =>
    exact .link (hk.directory hd) hs (hk.node?_of_ne_file hn (by simp)) hf ht (ih hspot)
  | @enter links here step rest node spot hd hs hn hl _ ih =>
    obtain ⟨contents, hnode⟩ := hk.node? hn
    refine .enter (hk.directory hd) hs hnode (fun target => ?_) (ih hspot)
    cases node with
    | link target' => exact absurd rfl (hl target')
    | file | directory => simp [Node.refill]

theorem Keeps.resolve {t' : FileTree} (hk : t.Keeps t') {p : Path} {place : Place}
    {node node' : Node} (h : t.resolve follow p = .ok (.taken place node))
    (hn : t'.node? place = some node') : t'.resolve follow p = .ok (.taken place node') := by
  obtain ⟨hp, hw⟩ := resolve_eq_ok_iff.mp h
  refine resolve_eq_ok_iff.mpr ⟨hp, ?_⟩
  rw [hk.current]
  exact hw.keep hk hn

theorem Keeps.resolve_free {t' : FileTree} (hk : t.Keeps t') {p : Path} {parent : Place}
    {name : Bytes} {slashed : Bool} {node : Node}
    (h : t.resolve follow p = .ok (.free parent name slashed))
    (hn : t'.node? (parent ++ [name]) = some node) (hl : ∀ target, node ≠ .link target)
    (hslashed : slashed = true → node = .directory) :
    t'.resolve follow p = .ok (.taken (parent ++ [name]) node) := by
  obtain ⟨hp, hw⟩ := resolve_eq_ok_iff.mp h
  refine resolve_eq_ok_iff.mpr ⟨hp, ?_⟩
  rw [hk.current]
  exact hw.fill hk hn hl hslashed

/-- What is found where a path leads. -/
theorem Follows.node? {links : Nat} {here place : Place} {steps : List Bytes} {node : Node}
    (h : t.Follows follow links here steps (.taken place node)) : t.node? place = some node := by
  generalize hspot : Spot.taken place node = spot at h
  induction h with
  | arrived hn =>
    obtain ⟨rfl, rfl⟩ := Spot.taken.inj hspot
    exact hn
  | kept _ _ hn _ =>
    obtain ⟨rfl, rfl⟩ := Spot.taken.inj hspot
    exact hn
  | free => cases hspot
  | idle _ _ _ ih | up _ _ ih | link _ _ _ _ _ _ ih | enter _ _ _ _ _ ih => exact ih hspot

theorem node?_of_resolve {p : Path} {place : Place} {node : Node}
    (h : t.resolve follow p = .ok (.taken place node)) : t.node? place = some node :=
  (resolve_eq_ok_iff.mp h).2.node?

/-- Writing changes what is found at one place, and the path leads there afterwards. -/
theorem resolve_of_write {t' : FileTree} {p : Path} {contents : Bytes}
    (h : t.write p contents = .ok t') :
    t.Keeps t' ∧ ∃ place, t'.resolve true p = .ok (.taken place (.file contents)) ∧
      ∀ q, q ≠ place → t'.node? q = t.node? q := by
  rw [write] at h
  split at h
  · rename_i place old hr
    obtain rfl := Except.ok.inj h
    have hk := t.keeps_refill place contents
    have hn : (t.refill place contents).node? place = some (.file contents) := by
      simp [node?_refill, node?_of_resolve hr, Node.refill]
    refine ⟨hk, place, hk.resolve hr hn, fun q hq => ?_⟩
    simp [node?_refill, hq]
  · cases h
  · rename_i parent name slashed hr
    split at h
    · cases h
    · rename_i hslashed
      have hk := (extends_add h).keeps
      have hn : t'.node? (parent ++ [name]) = some (.file contents) := by
        rw [node?_add h, if_pos rfl]
      refine ⟨hk, parent ++ [name], hk.resolve_free hr hn (by simp) (by simp [hslashed]), ?_⟩
      intro q hq
      rw [node?_add h, if_neg hq]
  · cases h

/-! ## Reading -/

theorem read_eq_ok_iff {p : Path} {contents : Bytes} :
    t.read p = .ok contents ↔ ∃ place, t.resolve true p = .ok (.taken place (.file contents)) := by
  rw [read]
  split
  all_goals simp_all

/-- What is written to a file is read from it. -/
theorem read_of_write {t' : FileTree} {p : Path} {contents : Bytes}
    (h : t.write p contents = .ok t') : t'.read p = .ok contents := by
  obtain ⟨-, place, hr, -⟩ := resolve_of_write h
  exact read_eq_ok_iff.mpr ⟨place, hr⟩

theorem Extends.read {t' : FileTree} (he : t.Extends t') {p : Path} {contents : Bytes}
    (h : t.read p = .ok contents) : t'.read p = .ok contents := by
  obtain ⟨place, hr⟩ := read_eq_ok_iff.mp h
  exact read_eq_ok_iff.mpr ⟨place, he.keeps.resolve hr (he.node? (node?_of_resolve hr))⟩

/-! ## Directories -/

/-- Steps that lead to a directory lead on from there, with the links that are left. -/
theorem Follows.exists_append {links : Nat} {here q : Place} {steps : List Bytes}
    (h : t.Follows true links here steps (.taken q .directory)) :
    ∃ left, ∀ {follow more spot}, more ≠ [] → t.Follows follow left q more spot →
      t.Follows follow links here (steps ++ more) spot := by
  generalize hspot : Spot.taken q .directory = spot at h
  induction h with
  | @arrived links here node hn =>
    obtain ⟨rfl, rfl⟩ := Spot.taken.inj hspot
    exact ⟨links, fun _ h => h⟩
  | idle hd hs _ ih =>
    obtain ⟨left, ih⟩ := ih hspot
    exact ⟨left, fun hmore h => .idle hd hs (ih hmore h)⟩
  | up hd _ ih =>
    obtain ⟨left, ih⟩ := ih hspot
    exact ⟨left, fun hmore h => .up hd (ih hmore h)⟩
  | free => cases hspot
  | kept => cases hspot
  | link hd hs hn hf ht _ ih =>
    obtain ⟨left, ih⟩ := ih hspot
    refine ⟨left, fun hmore h => ?_⟩
    have hlonger := ih hmore h
    rw [List.append_assoc] at hlonger
    exact .link hd hs hn (by simp [hmore]) ht hlonger
  | enter hd hs hn hl _ ih =>
    obtain ⟨left, ih⟩ := ih hspot
    exact ⟨left, fun hmore h => .enter hd hs hn hl (ih hmore h)⟩

/-- Where steps lead on, the ones before them lead to a directory. -/
theorem Follows.exists_of_append {links : Nat} {here place : Place} {steps more : List Bytes}
    {node : Node} (hmore : more ≠ [])
    (h : t.Follows follow links here (steps ++ more) (.taken place node)) :
    ∃ left q, t.Follows true links here steps (.taken q .directory) ∧
      t.Follows follow left q more (.taken place node) := by
  generalize hall : steps ++ more = all at h
  generalize hspot : Spot.taken place node = spot at h ⊢
  induction h generalizing steps with
  | arrived => exact absurd (List.append_eq_nil_iff.mp hall).2 hmore
  | idle hd hs h ih =>
    rcases List.append_eq_cons_iff.mp hall with ⟨rfl, rfl⟩ | ⟨rest, rfl, hrest⟩
    · exact ⟨_, _, .arrived hd, .idle hd hs h⟩
    · obtain ⟨left, q, hq, hleft⟩ := ih hrest.symm hspot
      exact ⟨left, q, .idle hd hs hq, hleft⟩
  | up hd h ih =>
    rcases List.append_eq_cons_iff.mp hall with ⟨rfl, rfl⟩ | ⟨rest, rfl, hrest⟩
    · exact ⟨_, _, .arrived hd, .up hd h⟩
    · obtain ⟨left, q, hq, hleft⟩ := ih hrest.symm hspot
      exact ⟨left, q, .up hd hq, hleft⟩
  | free => cases hspot
  | kept hd hs hn hf =>
    rcases List.append_eq_cons_iff.mp hall with ⟨rfl, rfl⟩ | ⟨rest, rfl, hrest⟩
    · exact ⟨0, _, .arrived hd, .kept hd hs hn hf⟩
    · exact absurd (List.append_eq_nil_iff.mp hrest.symm).2 hmore
  | link hd hs hn hf ht h ih =>
    rcases List.append_eq_cons_iff.mp hall with ⟨rfl, rfl⟩ | ⟨rest, rfl, hrest⟩
    · exact ⟨_, _, .arrived hd, .link hd hs hn hf ht h⟩
    · obtain ⟨left, q, hq, hleft⟩ := ih (by rw [hrest, List.append_assoc]) hspot
      exact ⟨left, q, .link hd hs hn (by simp) ht hq, hleft⟩
  | enter hd hs hn hl h ih =>
    rcases List.append_eq_cons_iff.mp hall with ⟨rfl, rfl⟩ | ⟨rest, rfl, hrest⟩
    · exact ⟨_, _, .arrived hd, .enter hd hs hn hl h⟩
    · obtain ⟨left, q, hq, hleft⟩ := ih hrest.symm hspot
      exact ⟨left, q, .enter hd hs hn hl hq, hleft⟩

/-- A slash at the end leads no further than its directory. -/
theorem follows_append_empty_iff {links : Nat} {here place : Place} {steps : List Bytes} :
    t.Follows true links here (steps ++ [[]]) (.taken place .directory) ↔
      t.Follows true links here steps (.taken place .directory) := by
  constructor
  · intro h
    obtain ⟨left, q, hq, hleft⟩ := h.exists_of_append (by simp)
    cases hleft with
    | idle _ _ hleft =>
      cases hleft with
      | arrived _ => exact hq
    | enter _ hs => cases hs.idle
    | link _ hs => cases hs.idle
  · intro h
    obtain ⟨left, hmore⟩ := h.exists_append
    exact hmore (by simp) (.idle h.node? rfl (.arrived h.node?))

/-- A spot that is free without its last link followed is free with it, and slashes after it do not
matter. -/
theorem Follows.free_append {links : Nat} {here parent : Place} {steps : List Bytes}
    {name : Bytes} {slashed : Bool} {blanks : List Bytes}
    (h : t.Follows follow links here steps (.free parent name slashed))
    (hblanks : blanks.all List.isEmpty = true) :
    ∃ slashed, t.Follows true links here (steps ++ blanks) (.free parent name slashed) := by
  generalize hspot : Spot.free parent name slashed = spot at h
  induction h with
  | arrived => cases hspot
  | idle hd hs _ ih =>
    obtain ⟨b, hb⟩ := ih hspot
    exact ⟨b, .idle hd hs hb⟩
  | up hd _ ih =>
    obtain ⟨b, hb⟩ := ih hspot
    exact ⟨b, .up hd hb⟩
  | free hd hs hn hrest =>
    obtain ⟨rfl, rfl, -⟩ := Spot.free.inj hspot
    have hall := List.all_append.trans (Bool.and_eq_true_iff.mpr ⟨hrest, hblanks⟩)
    exact ⟨_, .free hd hs hn hall⟩
  | kept => cases hspot
  | link hd hs hn hf ht _ ih =>
    obtain ⟨b, hb⟩ := ih hspot
    rw [List.append_assoc] at hb
    exact ⟨b, .link hd hs hn (by simp) ht hb⟩
  | enter hd hs hn hl _ ih =>
    obtain ⟨b, hb⟩ := ih hspot
    exact ⟨b, .enter hd hs hn hl hb⟩

theorem lookup?_eq_some_iff {p : Path} {node : Node} :
    t.lookup? p = some node ↔ ∃ place, t.resolve true p = .ok (.taken place node) := by
  rw [lookup?]
  split
  all_goals simp_all

theorem isDirectory_iff {p : Path} :
    t.isDirectory p = true ↔ ∃ place, t.resolve true p = .ok (.taken place .directory) := by
  rw [← lookup?_eq_some_iff, isDirectory, beq_iff_eq]

/-! ## Entries of directories -/

section Join

variable {dir : Path} {name : Bytes}

theorem IsPassable.of_append {p q : Path} {more : Bytes} (hq : q.bytes ≠ [])
    (h : q.bytes ++ more = p.bytes) (hp : IsPassable p) : IsPassable q := by
  have hzero := hp.zero
  have hlength := hp.length
  rw [← h, List.contains_append, Bool.or_eq_false_iff] at hzero
  rw [← h, List.length_append] at hlength
  exact ⟨hzero.1, by simpa using hq, by omega⟩

/-- The steps of a name below a directory are those of the directory and the name. -/
theorem exists_follows_join (t : FileTree) (hdir : dir.bytes ≠ []) (hslash : Path.slash ∉ name) :
    ∃ (start : Place) (steps : List Bytes),
      (∀ place, t.resolve true dir = .ok (.taken place .directory) ↔
        IsPassable dir ∧ t.Follows true maxLinks start steps (.taken place .directory)) ∧
      ∀ follow spot, t.resolve follow (dir.join ⟨name⟩) = .ok spot ↔
        IsPassable (dir.join ⟨name⟩) ∧
          t.Follows follow maxLinks start (steps ++ [name]) spot := by
  obtain ⟨bytes, hjoin, hbytes⟩ := Path.exists_bytes_join hdir hslash
  obtain ⟨more, hmore⟩ := Path.exists_append_eq_join hdir hslash
  have hlead := Path.isAbsolute_eq_of_append_eq hdir hmore
  refine ⟨if dir.isAbsolute then [] else t.current, Path.splitSlashes bytes, fun place => ?_,
    fun follow spot => ?_⟩
  · rcases hbytes with hb | hb
    · rw [resolve_eq_ok_iff, hb]
    · have hslashed : Path.splitSlashes dir.bytes = Path.splitSlashes bytes ++ [[]] := by
        rw [hb]
        exact Path.splitSlashes_append_cons bytes []
      rw [resolve_eq_ok_iff, hslashed, follows_append_empty_iff]
  · rw [resolve_eq_ok_iff, ← hlead, hjoin, Path.splitSlashes_append_cons,
      Path.splitSlashes_of_notMem hslash]

/-- What is found below a path shows that the path leads to a directory. -/
theorem isDirectory_of_join {place : Place} {node : Node} (hdir : dir.bytes ≠ [])
    (hslash : Path.slash ∉ name)
    (h : t.resolve follow (dir.join ⟨name⟩) = .ok (.taken place node)) :
    t.isDirectory dir = true := by
  obtain ⟨start, steps, hself, hbelow⟩ := t.exists_follows_join hdir hslash
  obtain ⟨hpass, hfollows⟩ := (hbelow follow _).mp h
  obtain ⟨left, q, hq, -⟩ := hfollows.exists_of_append (by simp)
  obtain ⟨more, hmore⟩ := Path.exists_append_eq_join hdir hslash
  exact isDirectory_iff.mpr ⟨q, (hself q).mpr ⟨hpass.of_append hdir hmore, hq⟩⟩

end Join

/-- A path is free with the slashes at its end if it is without them. -/
theorem resolve_of_free {p q : Path} {n : Nat}
    (hq : q.bytes ++ List.replicate n Path.slash = p.bytes) (hlength : p.bytes.length ≤ maxPath)
    {parent : Place} {name : Bytes} {slashed : Bool}
    (h : t.resolve follow q = .ok (.free parent name slashed)) :
    ∃ slashed, t.resolve true p = .ok (.free parent name slashed) := by
  obtain ⟨hpass, hf⟩ := resolve_eq_ok_iff.mp h
  have hblanks : (List.replicate n ([] : Bytes)).all List.isEmpty = true := by simp
  obtain ⟨slashed, hf⟩ := hf.free_append hblanks
  have hlead : q.isAbsolute = p.isAbsolute :=
    Path.isAbsolute_eq_of_append_eq (by simpa using hpass.empty) hq
  rw [hlead, ← Path.splitSlashes_append_replicate, hq] at hf
  have hzero : (0 : UInt8) ≠ Path.slash := by decide
  have hp : IsPassable p := by
    refine ⟨?_, ?_, hlength⟩ <;> rw [← hq]
    · simpa [hzero] using hpass.zero
    · simpa using fun h => absurd h (by simpa using hpass.empty)
  exact ⟨slashed, resolve_eq_ok_iff.mpr ⟨hp, hf⟩⟩

/-- What is created is put where the path would lead. -/
theorem resolve_of_create {t' : FileTree} {p : Path} {node : Node}
    (h : t.create p node = .ok t') : ∃ parent name slashed,
      t.resolve true p = .ok (.free parent name slashed) ∧ t.add parent name node = .ok t' := by
  rw [create] at h
  split at h
  · cases h
  rename_i hlength
  split at h
  · rename_i parent name slashed hr
    obtain ⟨n, hn⟩ := Path.exists_append_replicate p.bytes
    have hzero : p.bytes ++ List.replicate 0 Path.slash = p.bytes := List.append_nil p.bytes
    split at hr
    · obtain ⟨slashed, hfree⟩ := resolve_of_free hzero (by omega) hr
      exact ⟨parent, name, slashed, hfree, h⟩
    · obtain ⟨slashed, hfree⟩ := resolve_of_free hn (by omega) hr
      exact ⟨parent, name, slashed, hfree, h⟩
  · cases h
  · cases h

/-- A directory that is there is not created, whatever slashes its path ends with. -/
theorem provideDirectory_of_isDirectory {p : Path} (h : t.isDirectory p = true) :
    t.provideDirectory p = .ok t := by
  rw [provideDirectory]
  split
  · rename_i t' hcreate
    obtain ⟨place, hr⟩ := isDirectory_iff.mp h
    obtain ⟨parent, name, slashed, hfree, -⟩ := resolve_of_create hcreate
    rw [hr] at hfree
    cases hfree
  · rw [if_pos h]

theorem createDirectories_of_isDirectory {p : Path}
    (h : p.bytes = [] ∨ t.isDirectory p = true) : t.createDirectories p = (.ok (), t) := by
  rw [createDirectories, provideDirectories]
  rcases h with h | h
  · rw [if_pos (by simp [h])]
  · rw [provideDirectory_of_isDirectory h]
    exact ite_self _

/-- Writing a file that was not there leaves everything else in its place. -/
theorem extends_of_write {t' : FileTree} {p : Path} {contents : Bytes}
    (hp : t.holds p = false) (h : t.write p contents = .ok t') : t.Extends t' := by
  rw [write] at h
  split at h
  · rename_i place old hr
    simp [holds, lookup?, hr] at hp
  · cases h
  · split at h
    · cases h
    · exact extends_add h
  · cases h

end Transcode.FileTree
