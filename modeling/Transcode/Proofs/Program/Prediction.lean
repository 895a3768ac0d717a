import Transcode.Proofs.Batch.Simulation
import Transcode.Proofs.Plan.Faults
import Transcode.Proofs.Program.DryRun
import Transcode.Proofs.Program.SavedDefaults

/-! # What a dry run tells

A dry run lists the commands of its batch. A real run from the same world runs these commands, input by
input and each time up to the first one that fails. -/

namespace Transcode

/-! ## What is seen of a run -/

def Happening.isLogged : Happening → Bool
  | .logged _ _ => true
  | .printed _ | .complained _ | .executed _ | .captured _ | .opened _ => false

namespace World

variable {w w' w'' : World}

/-- What has been seen between two worlds, apart from the log. -/
def Shows (w w' : World) (seen : List Happening) : Prop :=
  ∃ new, w'.happenings = w.happenings ++ new ∧ new.filter (fun h => !h.isLogged) = seen

theorem Shows.refl (w : World) : w.Shows w [] :=
  ⟨[], (List.append_nil _).symm, rfl⟩

theorem Shows.trans {before after : List Happening} (h : w.Shows w' before)
    (h' : w'.Shows w'' after) : w.Shows w'' (before ++ after) := by
  obtain ⟨new, hnew, rfl⟩ := h
  obtain ⟨new', hnew', rfl⟩ := h'
  exact ⟨new ++ new', by rw [hnew', hnew, List.append_assoc], List.filter_append _ _⟩

theorem shows_see {h : Happening} (hh : h.isLogged = false) (w : World) : w.Shows (w.see h) [h] :=
  ⟨[h], rfl, by simp [hh]⟩

theorem shows_note (w : World) (level : LogLevel) (message : String) :
    w.Shows (w.note level message) [] := by
  rw [note]
  split
  · exact ⟨[.logged level message], rfl, rfl⟩
  · exact .refl w

theorem Shows.note {seen : List Happening} (h : w.Shows w' seen) (level : LogLevel)
    (message : String) : w.Shows (w'.note level message) seen := by
  have hall := h.trans (shows_note w' level message)
  rwa [List.append_nil] at hall

end World

/-! ## The commands of a batch -/

/-- How a dry run shows a command. -/
def Command.listed (c : Command) : Happening :=
  .printed (c.display ++ "\n")

namespace World

/-- Who runs the commands of a real run. -/
def runner : Runner World := fun c w =>
  (c.failure? (w.execute c).1, (w.execute c).2)

/-- What is seen of a command in a real run: it is announced, and executed if it can be started. -/
def attempt (w : World) (c : Command) : List Happening :=
  .printed ("Running: " ++ c.display ++ "\n") :: if (w.start c).isOk then [.executed c] else []

end World

namespace Sight

/-- What a dry run shows. -/
def listed : Sight → List Happening
  | .announced _ c => [c.listed]
  | .executed _ => []

/-- What is seen in a real run. -/
def attempted (w : World) : Sight → List Happening
  | .announced _ c => [.printed ("Running: " ++ c.display ++ "\n")]
  | .executed c => if (w.start c).isOk then [.executed c] else []

end Sight

theorem flatMap_sights {α : Type} {f : Command → List α} {g : Sight → List α}
    (hg : ∀ input c, g (.announced input c) ++ g (.executed c) = f c) (input : Path)
    (ran : List Command) : (sights input ran).flatMap g = ran.flatMap f := by
  rw [sights, List.flatMap_assoc]
  simp only [List.flatMap_cons, List.flatMap_nil, List.append_nil, hg]

/-- What is seen of the commands that are run for some inputs. -/
theorem flatMap_flatMap_sights {α : Type} {f : Command → List α} {g : Sight → List α}
    (hg : ∀ input c, g (.announced input c) ++ g (.executed c) = f c) {inputs : List Path}
    {runs : List (List Command)} (hlength : inputs.length = runs.length) :
    ((inputs.zip runs).flatMap fun x => sights x.1 x.2).flatMap g = runs.flatten.flatMap f := by
  rw [List.flatMap_assoc]
  simp only [flatMap_sights hg]
  rw [← List.flatMap_map, List.map_snd_zip hlength.ge, ← List.flatMap_id, List.flatMap_assoc]
  rfl

namespace Batch

open World

variable {start : World}

/-! ## The batch of a dry run -/

/-- A dry run lists the commands as if all of them succeeded. -/
theorem obeys_dry (start : World) :
    (crew World.host true).Obeys (fun _ s => (none, s))
      (fun w (_ : Unit) seen => start.Shows w (seen.flatMap Sight.listed)) where
  begin _ _ h := h.note _ _
  announce {w s seen} input c h := by
    have hlist := (h.trans (shows_see (h := c.listed) rfl w)).note .debug ("Running: " ++ c.display)
    rwa [List.flatMap_append]
  execute {w s seen} c h := by
    refine ⟨rfl, ?_⟩
    rwa [List.flatMap_append, List.flatMap_singleton, Sight.listed, List.append_nil]
  giveUp _ _ h := h.note _ _

/-! ## The batch of a real run -/

/-- A world in which the same programs are started with the same files as in another one. -/
structure Parallels (s w : World) : Prop where
  tree : s.tree = w.tree
  programs : s.programs = w.programs
  executed : s.executed = w.executed

theorem Parallels.start_eq {s w : World} (h : Parallels s w) (c : Command) :
    s.start c = w.start c := by
  rw [World.start, World.start, h.tree, h.programs, h.executed]

theorem isOk_start {s w : World} (h : s.programs = w.programs) (c : Command) :
    (s.start c).isOk = (w.start c).isOk := by
  rw [World.start, World.start, h]
  split
  · rfl
  · cases w.programs c.program <;> rfl

theorem Parallels.see {s w : World} (h : Parallels s w) (text : String) :
    Parallels s (w.see (.printed text)) := by
  refine ⟨h.tree, h.programs, h.executed.trans ?_⟩
  simp [World.executed, World.see]

theorem Parallels.note {s w : World} (h : Parallels s w) (level : LogLevel) (message : String) :
    Parallels s (w.note level message) := by
  rw [World.note]
  split
  · refine ⟨h.tree, h.programs, h.executed.trans ?_⟩
    simp [World.executed, World.see]
  · exact h

theorem Parallels.execute {s w : World} (h : Parallels s w) (c : Command) :
    (w.execute c).1 = (s.execute c).1 ∧ Parallels (s.execute c).2 (w.execute c).2 := by
  rw [World.execute, World.execute, h.start_eq]
  cases w.start c with
  | error fault => exact ⟨rfl, h⟩
  | ok r =>
    refine ⟨rfl, rfl, h.programs, ?_⟩
    have hexecuted := h.executed
    simp only [World.executed, World.see, List.filterMap_append] at hexecuted ⊢
    rw [hexecuted]

theorem shows_execute (w : World) (c : Command) :
    w.Shows (w.execute c).2 (if (w.start c).isOk then [.executed c] else []) := by
  rw [World.execute]
  cases w.start c with
  | error fault => exact .refl w
  | ok r => exact ⟨[.executed c], rfl, rfl⟩

theorem programs_execute (w : World) (c : Command) :
    (w.execute c).2.programs = w.programs := by
  rw [World.execute]
  cases w.start c <;> rfl

theorem programs_note (w : World) (level : LogLevel) (message : String) :
    (w.note level message).programs = w.programs := by
  rw [World.note]
  split <;> rfl

/-- How the world of a real run stands to the one of the runner, and to the world in which the batch
began. -/
structure Reflects (start w s : World) (seen : List Sight) : Prop where
  parallels : Parallels s w
  programs : w.programs = start.programs
  shows : start.Shows w (seen.flatMap (Sight.attempted start))

theorem Reflects.note {w s : World} {seen : List Sight} (h : Reflects start w s seen)
    (level : LogLevel) (message : String) : Reflects start (w.note level message) s seen :=
  ⟨h.parallels.note level message, (programs_note w level message).trans h.programs,
    h.shows.note level message⟩

theorem obeys_real (start : World) :
    (crew World.host false).Obeys World.runner (Reflects start) where
  begin _ _ h := h.note _ _
  giveUp input causes h :=
    h.note .error ("Failed to process " ++ input.display ++ ": " ++ causes.message)
  announce {w s seen} input c h := by
    have hannounced : Reflects start (w.see (.printed ("Running: " ++ c.display ++ "\n"))) s
        (seen ++ [.announced input c]) := by
      refine ⟨h.parallels.see _, h.programs, ?_⟩
      rw [List.flatMap_append]
      exact h.shows.trans (shows_see rfl w)
    exact hannounced.note .debug ("Running: " ++ c.display)
  execute {w s seen} c h := by
    obtain ⟨hanswer, hparallels⟩ := h.parallels.execute c
    refine ⟨congrArg c.failure? hanswer, hparallels, (programs_execute w c).trans h.programs, ?_⟩
    have hshows := h.shows.trans (shows_execute w c)
    rw [isOk_start h.programs] at hshows
    rw [List.flatMap_append, List.flatMap_singleton]
    exact hshows

/-! ## The end of a batch -/

variable {w w' : World} {inv : Invocation} {order : Order} {inputs : List Path}

/-- The plans of an order for a directory of outputs. -/
def Order.plan (order : Order) (directory input : Path) : Except PlanFault Plan :=
  order.profile.plan order.settings input directory

/-- The turns of all inputs. -/
def turns (inv : Invocation) (order : Order) (inputs : List Path) :
    StateM World (Except PlanFault (List Report)) :=
  (crew World.host inv.dryRun).runBatch (order.plan (outputDirectory inv order)) inputs

/-- What is left to do once all inputs have had their turns. -/
def close (inv : Invocation) (order : Order) (reports : List Report) :
    ExceptT Failure (StateM World) Unit := do
  if !(inv.noOpen || inv.skipMenu || inv.dryRun) && order.config.openOutputDirectory then
    offerDirectory World.host (outputDirectory inv order)
  if 0 < failedCount reports then
    throw (.inputsFailed (failedCount reports) reports.length)

theorem transcode_run (inv : Invocation) (order : Order) (inputs : List Path) (w : World) :
    (transcode World.host inv order inputs).run.run w =
      match (turns inv order inputs).run w with
      | (.error fault, w') => (.error (.plan fault), w')
      | (.ok reports, w') =>
        (close inv order reports).run.run (w'.see (.printed (summary reports 0 ++ "\n"))) := by
  have hsteps : (transcode World.host inv order inputs).run.run w = (do
      let reports ← attempt (turns inv order inputs) .plan
      World.host.printLine (summary reports 0)
      close inv order reports : ExceptT Failure (StateM World) Unit).run.run w := rfl
  have hattempt : (attempt (turns inv order inputs) Failure.plan).run.run w =
      (((turns inv order inputs).run w).1.mapError .plan, ((turns inv order inputs).run w).2) := rfl
  rw [hsteps, ExceptT.run_bind, StateT.run_bind, hattempt]
  rcases (turns inv order inputs).run w with ⟨fault | reports, w'⟩ <;> rfl

theorem converse_pause (prompt : String) (w : World) : ∃ result input,
    (World.host.converse (.pause prompt) ()).run w =
      (result, { w with input := input }.see (.printed prompt)) := by
  have hhangUp : (Dialogue.pause prompt).hangUp () = ([.ask prompt none], ()) := by
    rw [Dialogue.hangUp]
    rfl
  change ∃ result input, World.converse (.pause prompt) () w = (result, _)
  simp only [World.converse]
  cases ((w.input.map World.lineText?).takeWhile Option.isSome).filterMap id with
  | cons line rest => exact ⟨.ok (), _, rfl⟩
  | nil =>
    simp only [Dialogue.feed, List.length_nil, List.drop_zero, List.nil_append, hhangUp]
    cases w.input with
    | nil => exact ⟨.ok (), [], rfl⟩
    | cons line rest => exact ⟨.error .illFormedText, rest, rfl⟩

/-- Nothing is seen of a program but happenings of some kind. -/
def Utters (P : Happening → Prop) {α : Type} (x : ExceptT Failure (StateM World) α) : Prop :=
  ∀ w : World, ∃ seen, w.Shows (x.run.run w).2 seen ∧ ∀ h ∈ seen, P h

theorem Utters.andThen {P : Happening → Prop} {α β : Type} {x : ExceptT Failure (StateM World) α}
    {f : α → ExceptT Failure (StateM World) β} (hx : Utters P x) (hf : ∀ a, Utters P (f a)) :
    Utters P (x >>= f) := by
  intro w
  obtain ⟨seen, hseen, hall⟩ := hx w
  rw [ExceptT.run_bind, run_bind]
  rcases hw : x.run.run w with ⟨failure | a, w₁⟩ <;> rw [hw] at hseen
  · exact ⟨seen, hseen, hall⟩
  · obtain ⟨seen', hseen', hall'⟩ := hf a w₁
    exact ⟨seen ++ seen', hseen.trans hseen', List.forall_mem_append.mpr ⟨hall, hall'⟩⟩

/-- What may be seen after the batch of a real run: the offer to open the directory, and why the run
has failed. -/
def IsClosing (directory : Path) (h : Happening) : Prop :=
  h = .printed "Press Enter to open the output folder..." ∨
    h = .opened directory ∨ ∃ line, h = .complained line

theorem utters_close (inv : Invocation) (order : Order) (reports : List Report) :
    Utters (IsClosing (outputDirectory inv order)) (close inv order reports) := by
  have hpause : Utters (IsClosing (outputDirectory inv order)) (attempt (World.host.converse
      (.pause "Press Enter to open the output folder...") ()) Failure.terminal) := by
    intro w
    obtain ⟨result, input, hrun⟩ := converse_pause "Press Enter to open the output folder..." w
    refine ⟨[.printed "Press Enter to open the output folder..."], ?_, by simp [IsClosing]⟩
    change w.Shows ((World.host.converse (.pause _) ()).run w).2 _
    rw [hrun]
    exact ⟨_, rfl, rfl⟩
  have hoffer : Utters (IsClosing (outputDirectory inv order))
      (offerDirectory World.host (outputDirectory inv order)) := by
    refine hpause.andThen fun _ w => ?_
    exact ⟨[.opened (outputDirectory inv order)], shows_see rfl w, by simp [IsClosing]⟩
  have hfail : Utters (IsClosing (outputDirectory inv order)) (if 0 < failedCount reports then
      throw (.inputsFailed (failedCount reports) reports.length) else pure ()) := by
    intro w
    refine ⟨[], ?_, by simp⟩
    split <;> exact .refl w
  rw [close]
  split
  · exact hoffer.andThen fun _ => hfail
  · exact hfail

theorem exists_shows_ending {directory : Path} {x : ExceptT Failure (StateM World) Unit}
    (hx : Utters (IsClosing directory) x) (w : World) :
    ∃ seen, w.Shows (Program.ending (x.run.run w)).2 seen ∧ ∀ h ∈ seen, IsClosing directory h := by
  obtain ⟨seen, hseen, hall⟩ := hx w
  rcases hw : x.run.run w with ⟨failure | _, w₁⟩ <;> rw [hw] at hseen
  · have hcomplaint : w₁.Shows (Program.ending (.error failure, w₁)).2 [.complained failure.line] :=
      shows_see rfl w₁
    refine ⟨seen ++ [.complained failure.line], hseen.trans hcomplaint, ?_⟩
    exact List.forall_mem_append.mpr ⟨hall, by simp [IsClosing]⟩
  · exact ⟨seen, hseen, hall⟩

/-! ## Both runs -/

/-- The plans of some inputs. -/
def Order.HasPlans (order : Order) (directory : Path) (inputs : List Path) (plans : List Plan) :
    Prop :=
  List.Forall₂ (fun input p => order.plan directory input = .ok p) inputs plans

/-- A run has listed the commands of some plans and a summary, and has ended well. -/
structure Lists (plans : List Plan) (w : World) (outcome : Nat × World) : Prop where
  exitCode : outcome.1 = 0
  shows : ∃ reports, w.Shows outcome.2 ((plans.flatMap (·.commands)).map Command.listed ++
    [.printed (summary reports 0 ++ "\n")])

/-- A run has run commands of some plans, as the turns of the inputs tell: of each plan those from the
first one up to the first that fails. It has announced and executed these and no others. Only a command
that fails may be one that cannot be started. -/
structure Performs (order : Order) (directory : Path) (inputs : List Path) (plans : List Plan)
    (w w' : World) (runs : List (List Command)) (reports : List Report) : Prop where
  turns : ∃ s, World.runner.Turns (order.plan directory) w inputs
    ((inputs.zip runs).flatMap fun x => sights x.1 x.2) reports s
  begun : List.Forall₂ (Plan.Begun fun c => (w.start c).isOk = true) plans runs
  shows : ∃ closing, w.Shows w' (runs.flatten.flatMap w.attempt ++
    .printed (summary reports 0 ++ "\n") :: closing) ∧ ∀ h ∈ closing, IsClosing directory h
  all : failedCount reports = 0 → runs = plans.map (·.commands) ∧
    ∀ ran ∈ runs, ∀ c ∈ ran, (w.start c).isOk = true

variable {plans : List Plan} {directory : Path}

theorem commands_ne_nil {input : Path} {p : Plan} (h : order.plan directory input = .ok p) :
    p.commands ≠ [] := by
  obtain ⟨mode, c, fix, -, -, -, rfl⟩ := Profile.plan_eq_ok_iff.mp h
  cases mode <;> simp [Profile.passes]

theorem Order.HasPlans.exists_plan (h : order.HasPlans directory inputs plans) :
    ∀ input ∈ inputs, ∃ p, order.plan directory input = .ok p := by
  induction h with
  | nil => exact nofun
  | cons hp _ ih => exact List.forall_mem_cons.mpr ⟨⟨_, hp⟩, ih⟩

/-- Either all inputs have plans, or there is a fault that all of them have. -/
theorem Order.exists_hasPlans_or (order : Order) (directory : Path) (inputs : List Path) :
    (∃ plans, order.HasPlans directory inputs plans) ∨
      ∃ fault, ∀ input, order.plan directory input = .error fault := by
  by_cases hallows : order.profile.Allows order.settings
  · have hall (input : Path) : ∃ p, order.plan directory input = .ok p :=
      Profile.exists_plan_iff.mpr hallows
    choose plan hplan using hall
    exact .inl ⟨inputs.map plan, List.forall₂_map_right_iff.mpr
      (List.forall₂_same.mpr fun input _ => hplan input)⟩
  · have hnone : ¬ ∃ p, order.plan directory ⟨[]⟩ = .ok p :=
      fun h => hallows (Profile.exists_plan_iff.mp h)
    rw [exists_ok_iff, not_forall] at hnone
    obtain ⟨fault, hfault⟩ := hnone
    have hrefuses := Profile.plan_eq_error_iff.mp (not_not.mp hfault)
    exact .inr ⟨fault, fun _ => Profile.plan_eq_error_iff.mpr hrefuses⟩

/-- A dry run of a batch whose inputs have plans lists all their commands. -/
theorem lists_of_hasPlans (hdry : inv.dryRun = true)
    (hplans : order.HasPlans (outputDirectory inv order) inputs plans) (w : World) :
    Lists plans w (Program.ending ((transcode World.host inv order inputs).run.run w)) := by
  have hassures : Runner.Assures (fun _ (s : Unit) => (none, s)) (fun _ => True) fun _ => True :=
    ⟨fun _ => trivial, fun _ _ => trivial⟩
  obtain ⟨reports, w', s', seen, hrun, hturns, hshows⟩ :=
    (obeys_dry w).exists_turns (s := ()) hplans.exists_plan (Shows.refl w)
  have hnone := hturns.failedCount_eq_zero fun _ _ => rfl
  obtain ⟨runs, -, rfl, hcomplete⟩ :=
    hassures.exists_runs hturns trivial hplans fun _ _ => commands_ne_nil
  obtain ⟨rfl, -⟩ := hcomplete hnone
  have hlength : inputs.length = (plans.map (·.commands)).length := by
    rw [hplans.length_eq, List.length_map]
  rw [flatMap_flatMap_sights (f := fun c => [c.listed]) (fun _ _ => rfl) hlength] at hshows
  have hend : Program.ending ((transcode World.host inv order inputs).run.run w) =
      (0, w'.see (.printed (summary reports 0 ++ "\n"))) := by
    rw [transcode_run, turns, hdry, hrun]
    simp only [close, hdry, hnone, Bool.or_true, Bool.not_true, Bool.false_and, Bool.false_eq_true,
      if_false, Nat.lt_irrefl]
    rfl
  rw [hend]
  refine ⟨rfl, reports, ?_⟩
  rw [List.flatMap_def, List.map_eq_flatMap]
  exact hshows.trans (shows_see rfl w')

theorem assures_runner (w : World) :
    World.runner.Assures (fun s => s.programs = w.programs) fun c => (w.start c).isOk = true := by
  refine ⟨fun {c s} h => (programs_execute s c).trans h, fun {c s} h hnone => ?_⟩
  rw [← isOk_start h]
  simp only [World.runner, World.execute] at hnone
  cases hstart : s.start c with
  | ok r => rfl
  | error fault =>
    rw [hstart] at hnone
    cases hnone

/-- A real run of such a batch runs commands of the plans. -/
theorem exists_performs (hreal : inv.dryRun = false)
    (hplans : order.HasPlans (outputDirectory inv order) inputs plans) (w : World) :
    ∃ runs reports, Performs order (outputDirectory inv order) inputs plans w
      (Program.ending ((transcode World.host inv order inputs).run.run w)).2 runs reports := by
  have hstart : Reflects w w w [] := ⟨⟨rfl, rfl, rfl⟩, rfl, Shows.refl w⟩
  obtain ⟨reports, w', s', seen, hrun, hturns, hreflects⟩ :=
    (obeys_real w).exists_turns hplans.exists_plan hstart
  obtain ⟨runs, hbegun, rfl, hcomplete⟩ :=
    (assures_runner w).exists_runs hturns rfl hplans fun _ _ => commands_ne_nil
  have hlength : inputs.length = runs.length := hplans.length_eq.trans hbegun.length_eq
  have hshows := hreflects.shows
  rw [flatMap_flatMap_sights (f := w.attempt) (fun _ _ => rfl) hlength] at hshows
  obtain ⟨closing, hclosing, hkinds⟩ := exists_shows_ending (utters_close inv order reports)
    (w'.see (.printed (summary reports 0 ++ "\n")))
  refine ⟨runs, reports, ⟨s', hturns⟩, hbegun, ⟨closing, ?_, hkinds⟩, hcomplete⟩
  rw [transcode_run, turns, hreal, hrun]
  exact hshows.trans ((shows_see rfl w').trans hclosing)

/-- A batch that has no plans ends before anything is shown. -/
theorem ending_of_fault (inv : Invocation) {fault : PlanFault}
    (hfault : ∀ input, order.plan (outputDirectory inv order) input = .error fault)
    (hinputs : inputs ≠ []) (w : World) :
    Program.ending ((transcode World.host inv order inputs).run.run w) =
      (1, w.see (.complained (Failure.plan fault).line)) := by
  obtain ⟨input, rest, rfl⟩ := List.exists_cons_of_ne_nil hinputs
  have hturns : (turns inv order (input :: rest)).run w = (.error fault, w) := by
    rw [turns, Crew.runBatch, hfault]
    rfl
  rw [transcode_run, hturns]
  rfl

end Batch

/-- Whatever comes of it, a dry run starts no program, and it changes no files but the documents in the
directory of the configuration, for which it may create directories. Where a real run from the same
world gets as far as its batch, so does the dry run, with the same order and the same inputs, if the
encoder changes no files when it is asked for its version and the directory for the outputs is there.
Then the dry run lists the commands of all plans, and the real run announces and executes commands of
these plans: input by input those from the first one up to the first that fails, and all of them if no
input fails. Settings without plans end both runs alike. -/
theorem dryRun_predicts (w : World) (inv : Invocation) (hbatch : inv.subcommand = none) :
    let dry := Program.runOn w { inv with dryRun := true }
    let real := Program.runOn w { inv with dryRun := false }
    w.Spares (Program.IsDocument w inv) (Program.HoldsDocuments w inv) dry.2 ∧
    ∀ {order : Batch.Order} {inputs : List Path} {begun : World},
      let directory := Batch.outputDirectory inv order
      w.AnswersOnly → directory.bytes = [] ∨ w.tree.isDirectory directory = true →
      w.Begins { inv with dryRun := false } order inputs begun →
      ∃ begun', w.Begins { inv with dryRun := true } order inputs begun' ∧
        ((∃ plans runs reports, order.HasPlans directory inputs plans ∧
            Batch.Lists plans begun' dry ∧
            Batch.Performs order directory inputs plans begun real.2 runs reports) ∨
          ∃ fault, (∀ input, order.plan directory input = .error fault) ∧
            dry = (1, begun'.see (.complained (Failure.plan fault).line)) ∧
            real = (1, begun.see (.complained (Failure.plan fault).line))) := by
  intro dry real
  have hsame (d : Bool) : Invocation.subcommand { inv with dryRun := d } = none := hbatch
  have hwish (d : Bool) : Invocation.dryRun { inv with dryRun := d } = d := rfl
  have hdry : dry = Program.ending (Program.batchOn w { inv with dryRun := true }) :=
    Program.runOn_eq_ending (hsame true) w
  have hreal : real = Program.ending (Program.batchOn w { inv with dryRun := false }) :=
    Program.runOn_eq_ending (hsame false) w
  have hspares : w.Spares (Program.IsDocument w inv) (Program.HoldsDocuments w inv) dry.2 :=
    Program.spares_runOn (hsame true) (hwish true) w
  refine ⟨hspares, ?_⟩
  intro order inputs begun directory hanswers hout hbegun
  obtain ⟨begun', hbegun', -⟩ := hbegun.dry hanswers hout
  rw [hdry, hreal, hbegun.batchOn_eq, hbegun'.batchOn_eq]
  refine ⟨begun', hbegun', ?_⟩
  rcases order.exists_hasPlans_or directory inputs with ⟨plans, hplans⟩ | ⟨fault, hfault⟩
  · obtain ⟨runs, reports, hperforms⟩ := Batch.exists_performs (hwish false) hplans begun
    exact .inl ⟨plans, runs, reports, hplans, Batch.lists_of_hasPlans (hwish true) hplans begun',
      hperforms⟩
  · have hinputs := hbegun.inputs_ne_nil
    exact .inr ⟨fault, hfault,
      Batch.ending_of_fault { inv with dryRun := true } hfault hinputs begun',
      Batch.ending_of_fault { inv with dryRun := false } hfault hinputs begun⟩

/-! ## Both runs on a small machine -/

/-- Files with an empty configuration, with options that hold no settings, with a directory for the
outputs, and with a file that is no video but has the name of one. -/
def FileTree.stocked : FileTree where
  entries := [([Text.Utf8.encode "cfg"], .directory),
    ([Text.Utf8.encode "cfg", Text.Utf8.encode "config.toml"], .file []),
    ([Text.Utf8.encode "cfg", Text.Utf8.encode "options.json"],
      .file (Text.Utf8.encode "\x7b\x7d")),
    ([Text.Utf8.encode "output"], .directory),
    ([Text.Utf8.encode "a.mp4"], .file [])]
  current := []
  unique := by decide
  placed := by
    intro e he
    simp only [List.mem_cons, List.not_mem_nil, or_false] at he
    rcases he with rfl | rfl | rfl | rfl | rfl
    · exact ⟨[], _, rfl, by decide, .inl rfl⟩
    · exact ⟨[Text.Utf8.encode "cfg"], _, rfl, by decide, .inr (by simp)⟩
    · exact ⟨[Text.Utf8.encode "cfg"], _, rfl, by decide, .inr (by simp)⟩
    · exact ⟨[], _, rfl, by decide, .inl rfl⟩
    · exact ⟨[], _, rfl, by decide, .inl rfl⟩

/-- An encoder that tells its version, and that finds nothing to encode in any file. -/
def versionOnly : Executable := fun _ values tree =>
  if values = versionCommand.values then
    ⟨.exited 0, Text.Utf8.encode "ffmpeg version 7.1\n", tree⟩
  else ⟨.exited 183, [], tree⟩

/-- A machine with these files and with this encoder. -/
def World.stocked : World where
  tree := .stocked
  configHome := none
  input := []
  programs name := if name = encoderProgram then some versionOnly else none
  verbosity := 0
  happenings := []

theorem World.begins_stocked : ∃ begun,
    World.stocked.Begins { Invocation.dry false with dryRun := false }
      ⟨{}, Builtin.hevc, .fresh Builtin.hevc⟩ [.ofString "a.mp4"] begun := by
  have hconfigText : World.stocked.tree.readText (Document.config.file (.ofString "cfg")) =
      .ok "" := by
    decide +kernel
  have hoptionsText : World.stocked.tree.readText (Document.options.file (.ofString "cfg")) =
      .ok "\x7b\x7d" := by
    decide +kernel
  have hdirectory : World.stocked.tree.isDirectory (.ofString "output") = true := by decide +kernel
  have hcollect : World.stocked.tree.collect [.ofString "a.mp4"] =
      ⟨[.ofString "a.mp4"], [], []⟩ := by
    decide +kernel
  have hconfig : Config.read? "" = some {} := by decide +kernel
  have hoptions : Options.read? "\x7b\x7d" = some Keyed.empty := by decide +kernel
  have hsound : Builtin.hevc.storedFaults (.fresh Builtin.hevc) = [] := by decide +kernel
  have htold : Selection.ofRequest Registry.builtin (some "hevc") true = .settled Builtin.hevc := by
    decide +kernel
  let met := World.stocked.see (.captured versionCommand)
  let begun := met.see (.printed windowTitle)
  have hmeet : World.stocked.Yields (Batch.meetEncoder World.host false) () met := rfl
  have hselect : begun.Yields (Batch.selectProfile World.host
      (.ofRequest Registry.builtin (some "hevc") true)) Builtin.hevc begun := by
    rw [htold]
    rfl
  have hsettle : begun.Yields (Batch.settle World.host
      { Invocation.dry false with dryRun := false } Keyed.empty Builtin.hevc)
      (.fresh Builtin.hevc) begun := by
    rw [Settings.fresh, ← Options.settingsFor_empty]
    rfl
  refine ⟨begun, rfl, rfl, .ofString "cfg", begun, rfl, Batch.yields_prepare_iff.mpr ?_,
    Batch.yields_gather_iff.mpr ?_⟩
  · exact ⟨Keyed.empty, World.stocked, World.stocked, met, begun, begun,
      Config.load_of_readText hconfigText hconfig,
      Options.load_of_readText Registry.builtin hoptionsText hoptions, rfl, hmeet, hselect, hsettle,
      rfl⟩
  · refine ⟨begun, begun, ?_, ?_, ?_⟩
    · rw [hsound]
      rfl
    · change begun.change (World.stocked.tree.createDirectories (.ofString "output")) = _
      rw [FileTree.createDirectories_of_isDirectory (.inr hdirectory)]
      rfl
    · have hcollected : (World.host.collect [.ofString "a.mp4"]).run begun =
          (⟨[.ofString "a.mp4"], [], []⟩, begun) := Prod.ext hcollect rfl
      exact yields_bind_iff.mpr ⟨_, _, yields_lift_iff.mpr hcollected, rfl⟩

/-- A real run over a file that cannot be encoded, and the dry run before it. -/
theorem dryRun_predicts_hevc :
    let inv := Invocation.dry false
    let order : Batch.Order := ⟨{}, Builtin.hevc, .fresh Builtin.hevc⟩
    let directory := Path.ofString "output"
    let inputs := [Path.ofString "a.mp4"]
    ∃ begun begun' plans runs reports,
      World.stocked.Begins { inv with dryRun := false } order inputs begun ∧
      World.stocked.Begins { inv with dryRun := true } order inputs begun' ∧
      order.HasPlans directory inputs plans ∧
      Batch.Lists plans begun' (Program.runOn World.stocked { inv with dryRun := true }) ∧
      Batch.Performs order directory inputs plans begun
        (Program.runOn World.stocked { inv with dryRun := false }).2 runs reports := by
  intro inv order directory inputs
  obtain ⟨begun, hbegun⟩ := World.begins_stocked
  have hanswers : World.stocked.AnswersOnly := by
    intro encoder hencoder runs tree
    obtain rfl : versionOnly = encoder := by simpa [World.stocked] using hencoder
    rfl
  have hdirectory : World.stocked.tree.isDirectory (.ofString "output") = true := by decide +kernel
  obtain ⟨-, hpredicts⟩ := dryRun_predicts World.stocked inv rfl
  obtain ⟨begun', hbegun', ⟨plans, runs, reports, hplans, hlists, hperforms⟩ | ⟨fault, hfault, -⟩⟩ :=
    @hpredicts order inputs begun hanswers (.inr hdirectory) hbegun
  · exact ⟨begun, begun', plans, runs, reports, hbegun, hbegun', hplans, hlists, hperforms⟩
  · have hplan : ∃ p, order.plan directory (.ofString "a.mp4") = .ok p :=
      exists_ok_of_isOk (by decide +kernel)
    obtain ⟨p, hp⟩ := hplan
    cases (hfault _).symm.trans hp

end Transcode
