import Transcode.Host.Fault
import Transcode.Path.Basic

/-!
# File trees

A file tree is a map from places to files, directories and symbolic links, with a directory from
which relative paths start. Every place is taken once at most, and lies in a directory. A path is
followed step by step: `.` and empty steps stay, `..` goes up, and a link is replaced by its target,
at most forty times.
-/

namespace Transcode

open Text (Bytes)

/-- The names on the way from the root to an entry. -/
abbrev Place := List Bytes

/-- What is found at a place. -/
inductive Node where
  | file (contents : Bytes)
  | directory
  | link (target : Path)
deriving DecidableEq

/-- A file with other contents; directories and links stay as they are. -/
def Node.refill (contents : Bytes) : Node → Node
  | .file _ => .file contents
  | node => node

/-- Whether bytes can be the name of an entry: they hold no slash, and as a step they lead on. -/
def isEntryName (name : Bytes) : Bool :=
  !name.contains Path.slash && !Path.isIdle name && name != [Path.dot, Path.dot]

/-- Whether a place lies in the root or in a directory among entries. -/
def IsPlaced (entries : List (Place × Node)) (place : Place) : Prop :=
  ∃ parent name, place = parent ++ [name] ∧ isEntryName name = true ∧
    (parent = [] ∨ (parent, Node.directory) ∈ entries)

theorem IsPlaced.mono {entries more : List (Place × Node)} {place : Place}
    (h : IsPlaced entries place)
    (hd : ∀ parent, (parent, Node.directory) ∈ entries → (parent, Node.directory) ∈ more) :
    IsPlaced more place := by
  obtain ⟨parent, name, hp, hn, h⟩ := h
  exact ⟨parent, name, hp, hn, h.imp_right (hd parent)⟩

/-- Files, directories and links at their places, and the place of the current directory. The root
is a directory and has no entry. -/
structure FileTree where
  entries : List (Place × Node)
  current : Place
  unique : (entries.map Prod.fst).Nodup
  placed : ∀ e ∈ entries, IsPlaced entries e.1

/-- Where a path leads: to an entry, or to a free name in a directory, after which slashes may
follow. -/
inductive Spot where
  | taken (place : Place) (node : Node)
  | free (parent : Place) (name : Bytes) (slashed : Bool)
deriving DecidableEq

namespace FileTree

/-! ## Places -/

def empty : FileTree := ⟨[], [], by simp, by simp⟩

instance : Inhabited FileTree := ⟨empty⟩

def node? (t : FileTree) (place : Place) : Option Node :=
  if place = [] then some .directory
  else (t.entries.find? fun e => e.1 == place).map (·.2)

theorem mem_of_node?_eq_some {t : FileTree} {place : Place} {node : Node} (hp : place ≠ [])
    (h : t.node? place = some node) : (place, node) ∈ t.entries := by
  simp only [node?, if_neg hp, Option.map_eq_some_iff] at h
  obtain ⟨⟨q, n⟩, hf, rfl⟩ := h
  have hq : q = place := by simpa using List.find?_some hf
  exact hq ▸ List.mem_of_find?_eq_some hf

theorem not_mem_of_node?_eq_none {t : FileTree} {place : Place} (h : t.node? place = none) :
    place ∉ t.entries.map Prod.fst := by
  intro hm
  obtain ⟨e, he, rfl⟩ := List.mem_map.mp hm
  by_cases hp : e.1 = []
  · simp [node?, hp] at h
  · simp only [node?, if_neg hp, Option.map_eq_none_iff, List.find?_eq_none] at h
    exact h e he (by simp)

/-- Adds something at a free name in a directory. A name that is taken or no name at all, or a parent
that is no directory, is no place for it. -/
def add (t : FileTree) (parent : Place) (name : Bytes) (node : Node) :
    Except SystemFault FileTree :=
  if h : t.node? parent = some .directory ∧ t.node? (parent ++ [name]) = none ∧
      isEntryName name = true then
    .ok
      { t with
        entries := t.entries ++ [(parent ++ [name], node)]
        unique := by
          rw [List.map_append, List.nodup_append]
          refine ⟨t.unique, by simp, ?_⟩
          intro a ha b hb hab
          simp only [List.map_cons, List.map_nil, List.mem_singleton] at hb
          exact not_mem_of_node?_eq_none h.2.1 (hb ▸ hab ▸ ha)
        placed := by
          intro e he
          rcases List.mem_append.mp he with he | he
          · exact (t.placed e he).mono fun q hq => List.mem_append_left _ hq
          · refine ⟨parent, name, by rw [List.mem_singleton.mp he], h.2.2, ?_⟩
            by_cases hp : parent = []
            · exact .inl hp
            · exact .inr (List.mem_append_left _ (mem_of_node?_eq_some hp h.1)) }
  else .error .notFound

def refill (t : FileTree) (place : Place) (contents : Bytes) : FileTree :=
  { t with
    entries := t.entries.map fun e => (e.1, if e.1 = place then e.2.refill contents else e.2)
    unique := by
      rw [List.map_map]
      exact t.unique
    placed := by
      intro e he
      obtain ⟨d, hd, rfl⟩ := List.mem_map.mp he
      refine (t.placed d hd).mono fun q hq => List.mem_map.mpr ⟨_, hq, ?_⟩
      simp only [Node.refill, ite_self] }

/-- Removes the file or the link at a place; a directory stays. -/
def clear (t : FileTree) (place : Place) : FileTree :=
  { t with
    entries := t.entries.filter fun e => e.1 != place || e.2 == .directory
    unique := t.unique.sublist (List.filter_sublist.map _)
    placed := by
      intro e he
      refine (t.placed e (List.mem_filter.mp he).1).mono fun q hq => ?_
      exact List.mem_filter.mpr ⟨hq, by simp⟩ }

/-! ## Paths -/

def maxName : Nat := 255

/-- The longest path that is followed, in bytes. -/
def maxPath : Nat := 4095

def maxLinks : Nat := 40

/-- Follows steps from a directory up to a link, where it is told how to go on. A link at the end of the
way is followed only on demand. -/
def walkSteps (t : FileTree) (follow : Bool)
    (onward : Place → List Bytes → Except SystemFault Spot) (here : Place) :
    List Bytes → Except SystemFault Spot
  | [] =>
    match t.node? here with
    | some node => .ok (.taken here node)
    | none => .error .notFound
  | step :: rest =>
    if t.node? here ≠ some .directory then .error .notDirectory
    else if Path.isIdle step then t.walkSteps follow onward here rest
    else if step = [Path.dot, Path.dot] then t.walkSteps follow onward here.dropLast rest
    else if maxName < step.length then .error .nameTooLong
    else match t.node? (here ++ [step]) with
      | none =>
        if rest.all List.isEmpty then .ok (.free here step !rest.isEmpty) else .error .notFound
      | some (.link target) =>
        if rest.isEmpty && !follow then .ok (.taken (here ++ [step]) (.link target))
        else if target.bytes.isEmpty then .error .notFound
        else onward (if target.isAbsolute then [] else here)
          (Path.splitSlashes target.bytes ++ rest)
      | some _ => t.walkSteps follow onward (here ++ [step]) rest

/-- Follows steps from a directory, with a bound on the links that are followed. -/
def walk (t : FileTree) (follow : Bool) : Nat → Place → List Bytes → Except SystemFault Spot
  | 0 => t.walkSteps follow fun _ _ => .error .linkLoop
  | links + 1 => t.walkSteps follow (t.walk follow links)

def resolve (t : FileTree) (follow : Bool) (p : Path) : Except SystemFault Spot :=
  if p.bytes.contains 0 then .error .zeroByte
  else if p.bytes.isEmpty then .error .notFound
  else if maxPath < p.bytes.length then .error .nameTooLong
  else t.walk follow maxLinks (if p.isAbsolute then [] else t.current) (Path.splitSlashes p.bytes)

/-- What a path leads to, links included. -/
def lookup? (t : FileTree) (p : Path) : Option Node :=
  match t.resolve true p with
  | .ok (.taken _ node) => some node
  | _ => none

def holds (t : FileTree) (p : Path) : Bool :=
  (t.lookup? p).isSome

def isDirectory (t : FileTree) (p : Path) : Bool :=
  t.lookup? p == some .directory

def isFile (t : FileTree) (p : Path) : Bool :=
  match t.lookup? p with
  | some (.file _) => true
  | _ => false

/-! ## Reading and writing -/

def read (t : FileTree) (p : Path) : Except SystemFault Bytes :=
  match t.resolve true p with
  | .ok (.taken _ (.file contents)) => .ok contents
  | .ok (.taken _ _) => .error .isDirectory
  | .ok (.free _ _ _) => .error .notFound
  | .error fault => .error fault

def readText (t : FileTree) (p : Path) : Except SystemFault String :=
  (t.read p).bind fun contents =>
    match Text.Utf8.text? contents with
    | some s => .ok s
    | none => .error .illFormedText

/-- Writes a file, in the stead of one that is there. -/
def write (t : FileTree) (p : Path) (contents : Bytes) : Except SystemFault FileTree :=
  match t.resolve true p with
  | .ok (.taken place (.file _)) => .ok (t.refill place contents)
  | .ok (.taken _ _) => .error .isDirectory
  | .ok (.free parent name slashed) =>
    if slashed then .error .isDirectory else t.add parent name (.file contents)
  | .error fault => .error fault

def remove (t : FileTree) (p : Path) : Except SystemFault FileTree :=
  match t.resolve false p with
  | .ok (.taken _ .directory) => .error .isDirectory
  | .ok (.taken place _) => .ok (t.clear place)
  | .ok (.free _ _ _) => .error .notFound
  | .error fault => .error fault

/-- Creates something at a free name; slashes at the end of the path count for its length only. -/
def create (t : FileTree) (p : Path) (node : Node) : Except SystemFault FileTree :=
  let trimmed : Bytes := (p.bytes.reverse.dropWhile (· == Path.slash)).reverse
  if maxPath < p.bytes.length then .error .nameTooLong
  else match t.resolve false (if trimmed.isEmpty then p else ⟨trimmed⟩) with
  | .ok (.free parent name _) => t.add parent name node
  | .ok (.taken _ _) => .error .alreadyThere
  | .error fault => .error fault

def createDirectory (t : FileTree) (p : Path) : Except SystemFault FileTree :=
  t.create p .directory

/-- Creates a directory in one that is there; if it is there itself, nothing is to be done. -/
def provideDirectory (t : FileTree) (p : Path) : Except SystemFault FileTree :=
  match t.createDirectory p with
  | .ok t => .ok t
  | .error fault => if t.isDirectory p then .ok t else .error fault

/-- What an attempt at a change leaves: the changed tree, or the same one. -/
def after (t : FileTree) : Except SystemFault FileTree → Except SystemFault Unit × FileTree
  | .ok t' => (.ok (), t')
  | .error fault => (.error fault, t)

/-- Creates a directory and those above it, as far as they are missing. Where this fails on the way,
those above stay. The first argument bounds how many of them are tried. -/
def provideDirectories (t : FileTree) : Nat → Path → Except SystemFault Unit × FileTree
  | 0, _ => (.error .notFound, t)
  | levels + 1, p =>
    if p.bytes.isEmpty then (.ok (), t)
    else match t.provideDirectory p, p.parent? with
      | .error .notFound, some above =>
        match t.provideDirectories levels above with
        | (.ok _, t) => t.after (t.provideDirectory p)
        | (.error fault, t) => (.error fault, t)
      | result, _ => t.after result

/-- Creates a directory and those above it, as far as they are missing. A path has fewer components
than bytes. -/
def createDirectories (t : FileTree) (p : Path) : Except SystemFault Unit × FileTree :=
  t.provideDirectories (p.bytes.length + 1) p

/-! ## Listing -/

/-- The way from one place to another below it. -/
def below? (top place : Place) : Option Place :=
  if top.isPrefixOf place && top.length < place.length then some (place.drop top.length) else none

def extend (p : Path) (names : Place) : Path :=
  names.foldl (fun p name => p.join ⟨name⟩) p

/-- The paths of the entries below a directory. Links below it are listed and not followed. -/
def pathsBelow (t : FileTree) (top : Place) (p : Path) : List Path :=
  t.entries.filterMap fun e => (below? top e.1).map (extend p)

/-- The path itself and the paths of all entries below it; a link is followed if the path ends with
it, and only then. -/
def pathsFrom (t : FileTree) (p : Path) : List Path :=
  match t.resolve true p with
  | .ok (.taken place .directory) => p :: t.pathsBelow place p
  | .ok (.taken _ _) => [p]
  | _ => []

end FileTree

end Transcode
