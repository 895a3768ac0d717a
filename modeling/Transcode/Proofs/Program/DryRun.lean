import Transcode.Program.Run
import Transcode.Proofs.Program.Discreet

/-! # Dry runs

A dry run is discreet. It begins its batch with the same order and the same inputs as a real run from
the same world, if the directory for the outputs is there and the encoder's answer to the question for
its version changes no files. -/

namespace Transcode

open World

variable {files directories : Path → Prop} {directory : Path} {inv : Invocation}

namespace Batch

variable {order : Order}

/-! ## The parts of a dry run -/

theorem discreet_runBatch (plan : Path → Except PlanFault Plan) (inputs : List Path) :
    Discreet files directories ((crew World.host true).runBatch plan inputs) := by
  refine Crew.discreet_runBatch (fun _ _ => discreet_log _ _) ?_ plan inputs
  refine Crew.discreet_runCommands (fun _ _ => ?_) (fun _ => discreet_pure _)
    fun _ _ => discreet_log _ _
  exact (discreet_print _).bind fun _ => discreet_log _ _

theorem discreet_prepare (hdry : inv.dryRun = true) (directory : Path) :
    Discreet (Document.IsKept directory) (Document.IsHolder directory)
      (prepare World.host inv directory).run := by
  simp only [prepare, hdry]
  refine ((Config.discreet_load directory).attempt _).andThen fun config => ?_
  refine ((Options.discreet_load _ directory).attempt _).andThen fun options => ?_
  by_cases hnone : (inv.files.isEmpty && !inv.saveDefaults) = true
  · rw [if_pos hnone]
    exact discreet_pure (Except.error Failure.noInputs)
  rw [if_neg hnone]
  refine (discreet_return ()).andThen fun _ => ?_
  refine (discreet_print _).lift.andThen fun _ => ?_
  refine (discreet_selectProfile _).andThen fun p => ?_
  refine (discreet_log _ _).lift.andThen fun _ => ?_
  refine (discreet_settle _ _ _).andThen fun s => ?_
  split
  · exact (discreet_saveDefaults _ _ _).andThen fun _ => discreet_return _
  · exact discreet_return _

theorem discreet_gather (hdry : inv.dryRun = true) (order : Order) :
    Discreet files directories (gather World.host inv order).run := by
  rw [gather, hdry]
  refine (discreet_forIn _ fun _ => discreet_log _ _).andThen fun _ => ?_
  exact discreet_findInputs _

theorem discreet_transcode (hdry : inv.dryRun = true) (order : Order) (inputs : List Path) :
    Discreet files directories (transcode World.host inv order inputs).run := by
  simp only [transcode, hdry, Bool.or_true, Bool.not_true, Bool.false_and, Bool.false_eq_true,
    if_false]
  refine (discreet_pure _).lift.andThen fun _ => ?_
  refine ((discreet_runBatch _ _).attempt _).andThen fun reports => ?_
  refine (discreet_pure _).lift.andThen fun _ => ?_
  refine (discreet_print _).lift.andThen fun _ => ?_
  split
  · exact discreet_throw _
  · exact discreet_return _

theorem discreet_run (hdry : inv.dryRun = true) (directory : Path) :
    Discreet (Document.IsKept directory) (Document.IsHolder directory)
      (run World.host inv directory).run := by
  rw [run]
  refine (discreet_prepare hdry directory).andThen fun order => ?_
  split
  · exact discreet_return _
  refine (discreet_gather hdry order).andThen fun inputs => ?_
  exact discreet_transcode hdry order inputs

end Batch

/-! ## What a dry run leaves -/

namespace Program

/-- How a run ends, as its outcome tells. -/
def ending : Except Failure Unit × World → Nat × World
  | (.ok _, w) => (0, w)
  | (.error failure, w) => (1, w.see (.complained failure.line))

/-- What comes of a batch run, if there is a directory for the configuration. -/
def batchOn (w : World) (inv : Invocation) : Except Failure Unit × World :=
  match configDirectory inv.configDirectory w.configHome with
  | .error failure => (.error failure, { w with verbosity := inv.verbosity })
  | .ok directory =>
    (Batch.run World.host inv directory).run.run { w with verbosity := inv.verbosity }

theorem runOn_eq_ending (hbatch : inv.subcommand = none) (w : World) :
    runOn w inv = ending (batchOn w inv) := by
  have hperform : (perform World.host inv).run.run { w with verbosity := inv.verbosity } =
      batchOn w inv := by
    simp only [perform, hbatch, batchOn]
    change (do
      let directory ← configDirectory inv.configDirectory w.configHome
      Batch.run World.host inv directory : ExceptT Failure (StateM World) Unit).run.run _ = _
    cases configDirectory inv.configDirectory w.configHome <;> rfl
  rw [← hperform, runOn, run, World.run_bind]
  rcases (perform World.host inv).run.run { w with verbosity := inv.verbosity } with
    ⟨failure | _, w₁⟩ <;> rfl

theorem spares_ending (x : Except Failure Unit × World) :
    x.2.Spares files directories (ending x).2 := by
  rcases x with ⟨failure | _, w⟩
  · exact spares_see rfl w
  · exact .refl w

/-- The files of the documents in the directory of the configuration, if there is one. -/
def IsDocument (w : World) (inv : Invocation) (p : Path) : Prop :=
  ∃ directory, configDirectory inv.configDirectory w.configHome = .ok directory ∧
    Document.IsKept directory p

/-- The directories on the ways to these files. -/
def HoldsDocuments (w : World) (inv : Invocation) (q : Path) : Prop :=
  ∃ directory, configDirectory inv.configDirectory w.configHome = .ok directory ∧
    Document.IsHolder directory q

/-- Whatever comes of it, a dry run starts no program, and it writes to no file but the documents, for
which it may create directories. -/
theorem spares_runOn (hbatch : inv.subcommand = none) (hdry : inv.dryRun = true) (w : World) :
    w.Spares (IsDocument w inv) (HoldsDocuments w inv) (runOn w inv).2 := by
  have hstart : w.Spares (IsDocument w inv) (HoldsDocuments w inv)
      { w with verbosity := inv.verbosity } :=
    ⟨.refl _, rfl, [], (List.append_nil _).symm, nofun⟩
  rw [runOn_eq_ending hbatch]
  refine Spares.trans ?_ (spares_ending _)
  rw [batchOn]
  cases hdirectory : configDirectory inv.configDirectory w.configHome with
  | error failure => exact hstart
  | ok directory =>
    have hrun := (Batch.discreet_run hdry directory).spares { w with verbosity := inv.verbosity }
    exact hstart.trans (hrun.mono (fun _ hp => ⟨directory, hdirectory, hp⟩)
      fun _ hq => ⟨directory, hdirectory, hq⟩)

end Program

/-! ## How far both runs agree -/

variable {w w' : World} {order : Batch.Order} {inputs : List Path}

/-- A batch run gets as far as its batch. It has some order and some inputs then, and has left some
world. -/
structure World.Begins (w : World) (inv : Invocation) (order : Batch.Order) (inputs : List Path)
    (w' : World) : Prop where
  batch : inv.subcommand = none
  files : inv.files.isEmpty = false
  steps : ∃ directory w₁, Program.configDirectory inv.configDirectory w.configHome = .ok directory ∧
    Yields { w with verbosity := inv.verbosity } (Batch.prepare World.host inv directory) order w₁ ∧
    w₁.Yields (Batch.gather World.host inv order) inputs w'

theorem World.Begins.batchOn_eq (h : w.Begins inv order inputs w') :
    Program.batchOn w inv = (Batch.transcode World.host inv order inputs).run.run w' := by
  obtain ⟨directory, w₁, hdirectory, hprepare, hgather⟩ := h.steps
  simp only [Program.batchOn, hdirectory, Batch.run, hprepare.run_bind, h.files, Bool.false_eq_true,
    if_false, hgather.run_bind]

/-- The encoder changes no files when it is asked for its version. -/
def World.AnswersOnly (w : World) : Prop :=
  ∀ encoder, w.programs encoderProgram = some encoder →
    ∀ runs tree, (encoder runs versionCommand.values tree).tree = tree

theorem World.AnswersOnly.resembles (h : w.AnswersOnly) :
    w.Resembles (w.capture versionCommand).2 := by
  rw [capture]
  split
  · rename_i r hstart
    refine ⟨?_, rfl⟩
    rw [start] at hstart
    split at hstart
    · cases hstart
    split at hstart
    · rename_i encoder hencoder
      obtain rfl := Except.ok.inj hstart
      exact h encoder hencoder _ _
    · cases hstart
  · exact ⟨rfl, rfl⟩

namespace Batch

/-- Meeting the encoder leaves files and lines as they are. -/
theorem resembles_of_meetEncoder (h : w.AnswersOnly)
    (hmeet : w.Yields (meetEncoder World.host false) () w') : w.Resembles w' := by
  simp only [meetEncoder, Bool.not_false, if_true, yields_bind_iff, yields_attempt_iff,
    yields_log_iff] at hmeet
  obtain ⟨version, w₁, hversion, rfl⟩ := hmeet
  refine Resembles.trans ?_ (note_resembles w₁ _ _)
  rw [encoderVersion, run_bind] at hversion
  have hsame : (w.capture versionCommand).2 = w₁ := by
    split at hversion
    · cases hversion
    · split at hversion
      · exact congrArg Prod.snd hversion
      · cases hversion
  exact hsame ▸ h.resembles

theorem yields_prepare_dry (h : w.AnswersOnly)
    (hprepare : w.Yields (prepare World.host { inv with dryRun := false } directory) order w') :
    ∃ w'', w.Yields (prepare World.host { inv with dryRun := true } directory) order w'' ∧
      w'.Resembles w'' := by
  obtain ⟨o, w₁, w₂, w₃, w₄, w₅, hconfig, hoptions, hfiles, hmeet, hselect, hsettle, hsave⟩ :=
    yields_prepare_iff.mp hprepare
  have hstill : w₂.AnswersOnly := by
    have hfirst := (Config.discreet_load directory).spares w
    have hsecond := (Options.discreet_load Registry.builtin directory).spares w₁
    rw [hconfig] at hfirst
    rw [hoptions] at hsecond
    rw [AnswersOnly, hsecond.programs, hfirst.programs]
    exact h
  have hmet := (resembles_of_meetEncoder hstill hmeet).symm
  have hchoose (selection : Selection) :
      Discreet (Document.IsKept directory) (Document.IsHolder directory)
        (selectProfile World.host selection).run := discreet_selectProfile selection
  have hadjust (p : Profile) : Discreet (Document.IsKept directory) (Document.IsHolder directory)
      (settle World.host inv o p).run := discreet_settle inv o p
  have htitle : (w₃.see (.printed windowTitle)).Resembles (w₂.see (.printed windowTitle)) := hmet
  obtain ⟨v₄, hselect', h₄⟩ := (hchoose _).yields htitle hselect
  obtain ⟨v₅, hsettle', h₅⟩ := (hadjust _).yields
    (((note_resembles w₄ _ _).symm.trans h₄).trans (note_resembles v₄ _ _)) hsettle
  have hfinish : ∃ v', (if inv.saveDefaults then
      v₅.Yields (saveDefaults World.host (Document.options.file directory) o order.profile
        order.settings) () v' else v₅ = v') ∧ w'.Resembles v' := by
    split at hsave
    · rename_i hs
      simp only [show inv.saveDefaults = true from hs, if_true]
      exact (discreet_saveDefaults _ _ _).yields h₅ hsave
    · rename_i hs
      simp only [if_neg (show ¬ inv.saveDefaults = true from hs)]
      exact ⟨v₅, rfl, hsave ▸ h₅⟩
  obtain ⟨v', hsave', hend⟩ := hfinish
  exact ⟨v', yields_prepare_iff.mpr ⟨o, w₁, w₂, w₂, v₄, v₅, hconfig, hoptions, hfiles,
    yields_pure_iff.mpr ⟨rfl, rfl⟩, hselect', hsettle', hsave'⟩, hend⟩

/-- Creating a directory that is there is no change. -/
theorem yields_gather_dry {v : World} (hsame : w.Resembles v)
    (hout : (outputDirectory inv order).bytes = [] ∨
      w.tree.isDirectory (outputDirectory inv order) = true)
    (hgather : w.Yields (gather World.host { inv with dryRun := false } order) inputs w') :
    ∃ v', v.Yields (gather World.host { inv with dryRun := true } order) inputs v' ∧
      w'.Resembles v' := by
  obtain ⟨w₁, w₂, hwarned, hcreate, hfind⟩ := yields_gather_iff.mp hgather
  have hquiet := foldl_note_resembles w .warning (order.profile.storedFaults order.settings)
    (·.message)
  rw [hwarned] at hquiet
  have hcreated : (World.host.createDirectories (outputDirectory inv order)).run w₁ =
      (.ok (), w₁) := by
    change w₁.change (w₁.tree.createDirectories (outputDirectory inv order)) = _
    rw [FileTree.createDirectories_of_isDirectory (hquiet.1 ▸ hout)]
    rfl
  obtain rfl : w₁ = w₂ := congrArg Prod.snd (hcreated.symm.trans hcreate)
  have hsearch : Discreet (fun _ => False) (fun _ => False)
      (findInputs World.host inv.files).run := discreet_findInputs inv.files
  have hwarned' := foldl_note_resembles v .warning (order.profile.storedFaults order.settings)
    (·.message)
  obtain ⟨v', hfind', hend⟩ := hsearch.yields ((hquiet.symm.trans hsame).trans hwarned') hfind
  exact ⟨v', yields_gather_iff.mpr ⟨_, _, rfl, rfl, hfind'⟩, hend⟩

end Batch

theorem World.Begins.inputs_ne_nil (h : w.Begins inv order inputs w') : inputs ≠ [] := by
  obtain ⟨_, _, -, -, hgather⟩ := h.steps
  obtain ⟨_, _, -, -, hfind⟩ := Batch.yields_gather_iff.mp hgather
  exact Batch.ne_nil_of_findInputs hfind

/-- Where a real run begins its batch, a dry run does. -/
theorem World.Begins.dry (h : w.Begins { inv with dryRun := false } order inputs w')
    (hanswers : w.AnswersOnly)
    (hout : (Batch.outputDirectory inv order).bytes = [] ∨
      w.tree.isDirectory (Batch.outputDirectory inv order) = true) :
    ∃ v, w.Begins { inv with dryRun := true } order inputs v ∧ w'.Resembles v := by
  obtain ⟨directory, w₁, hdirectory, hprepare, hgather⟩ := h.steps
  have hanswers' : AnswersOnly { w with verbosity := inv.verbosity } := hanswers
  obtain ⟨v₁, hprepare', hprepared⟩ := Batch.yields_prepare_dry hanswers' hprepare
  have hkept : w.tree.Keeps w₁.tree := by
    have hdry : Invocation.dryRun { inv with dryRun := true } = true := rfl
    have hspares := (Batch.discreet_prepare hdry directory).spares_of_yields hprepare'
    exact hprepared.1 ▸ hspares.tree.keeps
  obtain ⟨v, hgather', hend⟩ :=
    Batch.yields_gather_dry hprepared (hout.imp_right hkept.isDirectory) hgather
  exact ⟨v, ⟨h.batch, h.files, directory, v₁, hdirectory, hprepare', hgather'⟩, hend⟩

end Transcode
