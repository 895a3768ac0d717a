import Transcode.Proofs.FileTree.Changed
import Transcode.Proofs.Program.Outcome

/-! # Programs that change little

A dry run starts no program and changes no files but those of the configuration. What it does depends
on the files and on the lines that wait, and on nothing that has been seen before. -/

namespace Transcode

/-- Whether a program has been started. -/
def Happening.isStart : Happening → Bool
  | .executed _ | .captured _ | .opened _ => true
  | .printed _ | .complained _ | .logged _ _ => false

namespace World

variable {α β ε : Type} {files directories : Path → Prop} {w w' w'' : World}

/-! ## Worlds before and after -/

/-- No program has been started, and no files have changed but those to which some paths lead, and new
directories. -/
structure Spares (files directories : Path → Prop) (w w' : World) : Prop where
  tree : FileTree.ChangedAt files directories w.tree w'.tree
  programs : w'.programs = w.programs
  happenings : ∃ new, w'.happenings = w.happenings ++ new ∧ ∀ h ∈ new, h.isStart = false

theorem Spares.refl (w : World) : w.Spares files directories w :=
  ⟨.refl _, rfl, [], (List.append_nil _).symm, nofun⟩

theorem Spares.trans (h : w.Spares files directories w') (h' : w'.Spares files directories w'') :
    w.Spares files directories w'' := by
  obtain ⟨new, hnew, hquiet⟩ := h.happenings
  obtain ⟨new', hnew', hquiet'⟩ := h'.happenings
  refine ⟨h.tree.trans h'.tree, h'.programs.trans h.programs, new ++ new', ?_, ?_⟩
  · rw [hnew', hnew, List.append_assoc]
  · intro happening hmem
    exact (List.mem_append.mp hmem).elim (hquiet happening) (hquiet' happening)

theorem Spares.mono {files' directories' : Path → Prop} (h : w.Spares files directories w')
    (hfiles : ∀ p, files p → files' p) (hdirectories : ∀ p, directories p → directories' p) :
    w.Spares files' directories' w' :=
  ⟨h.tree.mono hfiles hdirectories, h.programs, h.happenings⟩

theorem spares_see {h : Happening} (hquiet : h.isStart = false) (w : World) :
    w.Spares files directories (w.see h) :=
  ⟨.refl _, rfl, [h], rfl, by simpa using hquiet⟩

theorem spares_note (w : World) (level : LogLevel) (message : String) :
    w.Spares files directories (w.note level message) := by
  rw [note]
  split
  · exact spares_see rfl w
  · exact .refl w

theorem spares_present (w : World) (event : Event) :
    w.Spares files directories (w.present event) := by
  cases event with
  | clear => exact .refl w
  | say | ask => exact spares_see rfl w
  | store => exact spares_note w _ _

theorem spares_foldl_present (w : World) (events : List Event) :
    w.Spares files directories (events.foldl present w) := by
  induction events generalizing w with
  | nil => exact .refl w
  | cons event events ih => exact (spares_present w event).trans (ih _)

/-! ## Discreet programs -/

/-- A program that spares a world, whatever comes of it, and that does the same on worlds with the same
files and lines. -/
structure Discreet (files directories : Path → Prop) (x : StateM World α) : Prop where
  spares : ∀ w : World, w.Spares files directories (x.run w).2
  blind : ∀ {w w' : World}, w.Resembles w' →
    (x.run w').1 = (x.run w).1 ∧ (x.run w).2.Resembles (x.run w').2

theorem discreet_pure (a : α) : Discreet files directories (pure a) :=
  ⟨.refl, fun h => ⟨rfl, h⟩⟩

theorem Discreet.bind {x : StateM World α} {f : α → StateM World β}
    (hx : Discreet files directories x) (hf : ∀ a, Discreet files directories (f a)) :
    Discreet files directories (x >>= f) := by
  refine ⟨fun w => (hx.spares w).trans ((hf _).spares _), fun {w w'} h => ?_⟩
  obtain ⟨hresult, hafter⟩ := hx.blind h
  rw [run_bind, run_bind, hresult]
  exact (hf _).blind hafter

theorem Discreet.map {x : StateM World α} (hx : Discreet files directories x) (f : α → β) :
    Discreet files directories (f <$> x) :=
  hx.bind fun a => discreet_pure (f a)

section Steps

variable {x : ExceptT Failure (StateM World) α}

theorem Discreet.andThen {f : α → ExceptT Failure (StateM World) β}
    (hx : Discreet files directories x.run) (hf : ∀ a, Discreet files directories (f a).run) :
    Discreet files directories (x >>= f).run := by
  rw [ExceptT.run_bind]
  refine hx.bind fun result => ?_
  cases result with
  | error failure => exact discreet_pure _
  | ok a => exact hf a

theorem discreet_return (a : α) :
    Discreet files directories (pure a : ExceptT Failure (StateM World) α).run :=
  discreet_pure _

theorem discreet_throw (failure : Failure) :
    Discreet files directories (throw failure : ExceptT Failure (StateM World) α).run :=
  discreet_pure _

theorem Discreet.lift {x : StateM World α} (hx : Discreet files directories x) :
    Discreet files directories (liftM x : ExceptT Failure (StateM World) α).run :=
  hx.map Except.ok

theorem Discreet.attempt {x : StateM World (Except ε α)} (hx : Discreet files directories x)
    (failure : ε → Failure) : Discreet files directories (Batch.attempt x failure).run :=
  hx.bind fun _ => discreet_pure _

theorem discreet_forIn (as : List α) {f : α → StateM World Unit}
    (hf : ∀ a, Discreet files directories (f a)) :
    Discreet files directories (forIn as PUnit.unit fun a _ => do
      liftM (f a)
      return ForInStep.yield PUnit.unit : ExceptT Failure (StateM World) PUnit).run := by
  induction as with
  | nil => exact discreet_return _
  | cons a as ih =>
    simp only [List.forIn_cons, bind_assoc, pure_bind]
    exact (hf a).lift.andThen fun _ => ih

/-- On a world with the same files and lines a discreet run yields the same. -/
theorem Discreet.yields {a : α} {w₁ : World} (hx : Discreet files directories x.run)
    (h : w.Resembles w') (hw : w.Yields x a w₁) : ∃ w₁', w'.Yields x a w₁' ∧ w₁.Resembles w₁' := by
  obtain ⟨hresult, hafter⟩ := hx.blind h
  rw [show x.run.run w = (.ok a, w₁) from hw] at hresult hafter
  exact ⟨(x.run.run w').2, Prod.ext hresult rfl, hafter⟩

theorem Discreet.spares_of_yields {a : α} (hx : Discreet files directories x.run)
    (hw : w.Yields x a w') : w.Spares files directories w' := by
  have hspares := hx.spares w
  rwa [show x.run.run w = (.ok a, w') from hw] at hspares

end Steps

/-! ## What a host does -/

theorem discreet_modify {f : World → World}
    (hspares : ∀ w : World, w.Spares files directories (f w))
    (hsame : ∀ w : World, w.Resembles (f w)) : Discreet files directories (modify f) :=
  ⟨hspares, fun {w w'} h => ⟨rfl, ((hsame w).symm.trans h).trans (hsame w')⟩⟩

theorem discreet_print (text : String) : Discreet files directories (host.print text) :=
  discreet_modify (spares_see rfl) fun _ => ⟨rfl, rfl⟩

theorem discreet_log (level : LogLevel) (message : String) :
    Discreet files directories (host.log level message) :=
  discreet_modify (fun w => w.spares_note level message) fun w => w.note_resembles level message

theorem discreet_present (event : Event) : Discreet files directories (host.present event) :=
  discreet_modify (fun w => w.spares_present event) fun w => w.present_resembles event

theorem discreet_converse {σ ρ : Type} (d : Dialogue σ ρ) (s : σ) :
    Discreet files directories (host.converse d s) := by
  have hspares (w : World) (input : List Text.Bytes) (events : List Event) :
      w.Spares files directories (events.foldl present { w with input := input }) := by
    have hread : w.Spares files directories { w with input := input } :=
      ⟨.refl _, rfl, [], (List.append_nil _).symm, nofun⟩
    exact hread.trans (spares_foldl_present _ events)
  have hsame {w w' : World} (h : w.Resembles w') (input : List Text.Bytes) (events : List Event) :
      (events.foldl present { w with input := input }).Resembles
        (events.foldl present { w' with input := input }) := by
    have hread : Resembles { w with input := input } { w' with input := input } := ⟨h.1, rfl⟩
    have hleft := foldl_present_resembles { w with input := input } events
    have hright := foldl_present_resembles { w' with input := input } events
    exact (hleft.symm.trans hread).trans hright
  constructor
  · intro w
    change w.Spares files directories (converse d s w).2
    simp only [converse]
    split
    · exact hspares _ _ _
    · split <;> exact hspares _ _ _
  · intro w w' h
    change (converse d s w').1 = (converse d s w).1 ∧
      (converse d s w).2.Resembles (converse d s w').2
    simp only [converse, h.2]
    split
    · exact ⟨rfl, hsame h _ _⟩
    · split <;> exact ⟨rfl, hsame h _ _⟩

theorem discreet_get {f : FileTree → α} :
    Discreet files directories (do return f (← get).tree : StateM World α) :=
  ⟨.refl, fun h => ⟨congrArg f h.1, h⟩⟩

theorem discreet_holds (p : Path) : Discreet files directories (host.holds p) :=
  discreet_get (f := fun t => t.holds p)

theorem discreet_readText (p : Path) : Discreet files directories (host.readText p) :=
  discreet_get (f := fun t => t.readText p)

theorem discreet_collect (paths : List Path) : Discreet files directories (host.collect paths) :=
  discreet_get (f := fun t => t.collect paths)

theorem discreet_change {f : FileTree → Except SystemFault Unit × FileTree}
    (hf : ∀ t, FileTree.ChangedAt files directories t (f t).2) :
    Discreet files directories (modifyGet fun w => w.change (f w.tree)) := by
  refine ⟨fun w => ⟨hf w.tree, rfl, [], (List.append_nil _).symm, nofun⟩, fun {w w'} h => ?_⟩
  change (f w'.tree).1 = (f w.tree).1 ∧ Resembles { w with tree := (f w.tree).2 }
    { w' with tree := (f w'.tree).2 }
  rw [h.1]
  exact ⟨rfl, rfl, h.2⟩

theorem discreet_writeText {p : Path} (hp : files p) (s : String) :
    Discreet files directories (host.writeText p s) :=
  discreet_change fun _ => FileTree.changedAt_after fun _ => FileTree.changedAt_write hp

theorem discreet_createDirectories {p : Path} (hp : ∀ q : Path, q.IsAtOrAbove p → directories q) :
    Discreet files directories (host.createDirectories p) :=
  discreet_change fun t => FileTree.changedAt_createDirectories t hp

end World

open World

/-! ## Documents -/

namespace Document

/-- The files of a directory for documents. -/
def IsKept (directory p : Path) : Prop :=
  ∃ d : Document, p = d.file directory

/-- The directories on the ways to these files: the directory and those above it. The options are
saved to the parent of their file, which is the same directory under the name that is left of it. -/
def IsHolder (directory q : Path) : Prop :=
  q.IsAtOrAbove directory ∨
    q.IsAtOrAbove ((Document.options.file directory).parent?.getD ⟨[]⟩)

end Document

variable {directory : Path}

theorem Document.discreet_load {α : Type} {files directories : Path → Prop} (d : Document)
    (file : Path) (read? : String → Option α) :
    Discreet files directories (Document.load World.host d file read?) := by
  refine (discreet_holds file).bind fun there => ?_
  split
  · refine (discreet_readText file).bind fun result => ?_
    split
    · exact discreet_pure _
    · split <;> exact discreet_pure _
  · exact discreet_pure _

theorem Document.discreet_save {files directories : Path → Prop} {holder file : Path}
    (hfile : files file) (hholder : ∀ q : Path, q.IsAtOrAbove holder → directories q)
    (d : Document) (text : Except String String) :
    Discreet files directories (Document.save World.host d holder file text) := by
  refine (discreet_createDirectories hholder).bind fun result => ?_
  split
  · exact discreet_pure _
  · split
    · exact discreet_pure _
    · exact (discreet_writeText hfile _).bind fun _ => discreet_pure _

theorem Config.discreet_save (c : Config) (directory : Path) :
    Discreet (Document.IsKept directory) (Document.IsHolder directory)
      (c.save World.host directory) :=
  Document.discreet_save ⟨.config, rfl⟩ (fun _ hq => .inl hq) .config _

theorem Config.discreet_load (directory : Path) :
    Discreet (Document.IsKept directory) (Document.IsHolder directory)
      (Config.load World.host directory) := by
  refine (Document.discreet_load _ _ _).bind fun result => ?_
  split
  · exact discreet_pure _
  · exact discreet_pure _
  · refine (discreet_save _ _).bind fun saved => ?_
    split
    · exact (discreet_log _ _).bind fun _ => discreet_pure _
    · exact discreet_pure _

theorem Options.discreet_save (o : Options) (directory : Path) :
    Discreet (Document.IsKept directory) (Document.IsHolder directory)
      (o.save World.host (Document.options.file directory)) :=
  Document.discreet_save ⟨.options, rfl⟩ (fun _ hq => .inr hq) .options _

theorem Options.discreet_load (r : Registry) (directory : Path) :
    Discreet (Document.IsKept directory) (Document.IsHolder directory)
      (Options.load World.host (Document.options.file directory) r) := by
  refine (Document.discreet_load _ _ _).bind fun result => ?_
  split
  · exact discreet_pure _
  · exact discreet_pure _
  · refine (discreet_save _ _).bind fun saved => ?_
    split
    · exact discreet_pure _
    · exact (discreet_log _ _).bind fun _ => discreet_pure _

/-! ## Batches -/

theorem Crew.discreet_runCommands {files directories : Path → Prop} {crew : Crew (StateM World)}
    (hannounce : ∀ input c, Discreet files directories (crew.announce input c))
    (hexecute : ∀ c, Discreet files directories (crew.execute c))
    (hgiveUp : ∀ input causes, Discreet files directories (crew.giveUp input causes))
    (input : Path) (index : Nat) (commands : List Command) :
    Discreet files directories (crew.runCommands input index commands) := by
  induction commands generalizing index with
  | nil => exact discreet_pure _
  | cons c commands ih =>
    refine (hannounce input c).bind fun _ => (hexecute c).bind fun failure => ?_
    cases failure with
    | none => exact ih _
    | some causes => exact (hgiveUp input causes).bind fun _ => discreet_pure _

theorem Crew.discreet_runBatch {files directories : Path → Prop} {crew : Crew (StateM World)}
    (hbegin : ∀ input p, Discreet files directories (crew.begin input p))
    (hcommands : ∀ input index commands,
      Discreet files directories (crew.runCommands input index commands))
    (plan : Path → Except PlanFault Plan) (inputs : List Path) :
    Discreet files directories (crew.runBatch plan inputs) := by
  induction inputs with
  | nil => exact discreet_pure _
  | cons input inputs ih =>
    rw [runBatch]
    split
    · exact discreet_pure _
    · exact (hbegin _ _).bind fun _ => (hcommands _ _ _).bind fun _ =>
        ih.bind fun _ => discreet_pure _

namespace Batch

variable {files directories : Path → Prop} {inv : Invocation} {order : Order}

theorem discreet_selectProfile (selection : Selection) :
    Discreet files directories (selectProfile World.host selection).run := by
  cases selection with
  | settled p => exact discreet_return p
  | refused fault => exact discreet_throw _
  | menu notice =>
    refine (discreet_forIn _ discreet_present).andThen fun _ => ?_
    refine ((discreet_converse _ _).attempt _).andThen fun choice => ?_
    split
    · exact discreet_return _
    · exact discreet_throw _

theorem discreet_settle (inv : Invocation) (o : Options) (p : Profile) :
    Discreet files directories (settle World.host inv o p).run := by
  have hedit (s : Settings) : Discreet files directories
      (if inv.skipMenu then (return s) else editSettings World.host p s :
        ExceptT Failure (StateM World) Settings).run := by
    split
    · exact discreet_return _
    · exact (discreet_forIn _ discreet_present).andThen fun _ =>
        (discreet_converse _ _).attempt _
  rw [settle]
  split
  · exact (discreet_log _ _).lift.andThen fun _ => hedit _
  · exact hedit _

theorem discreet_saveDefaults (o : Options) (p : Profile) (s : Settings) :
    Discreet (Document.IsKept directory) (Document.IsHolder directory)
      (saveDefaults World.host (Document.options.file directory) o p s).run :=
  ((Options.discreet_save _ directory).attempt _).andThen fun _ => (discreet_print _).lift

theorem discreet_findInputs (paths : List Path) :
    Discreet files directories (findInputs World.host paths).run := by
  refine (discreet_collect paths).lift.andThen fun inputs => ?_
  refine (discreet_forIn _ fun _ => discreet_log _ _).andThen fun _ => ?_
  refine (discreet_forIn _ fun _ => discreet_print _).andThen fun _ => ?_
  split
  · exact discreet_throw _
  · exact discreet_return _

end Batch

end Transcode
