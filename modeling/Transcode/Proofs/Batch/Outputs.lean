import Transcode.Proofs.Batch.Trace
import Transcode.Proofs.Plan.Naming

/-! # Outputs of a batch

The outputs of a batch go to one directory, under names that tell the inputs apart by nothing but what
is shown of their stems. -/

namespace Transcode

open Text (Bytes)
open Text.Utf8 (encode)

/-! ## Names -/

/-- Two inputs have one output exactly if the same is shown of their stems. -/
theorem components_outputPath_eq_iff {p : Profile} {s : Settings} {directory : Path}
    {mode : PassMode} {container : String} (a b : Path) :
    (p.outputPath s a directory mode container).components =
        (p.outputPath s b directory mode container).components ↔
      a.shownStem = b.shownStem := by
  obtain ⟨lead, hlead⟩ := Path.exists_components_join directory
  obtain ⟨first, rest, hrest⟩ := List.exists_cons_of_ne_nil
    (Text.split_ne_nil Path.slash (encode (p.nameEnd s mode container)))
  have hsplit : Path.splitSlashes (underscore :: encode (p.nameEnd s mode container)) =
      (underscore :: first) :: rest := by
    rw [Path.splitSlashes, Text.split, hrest]
    rfl
  have hcomponents (input : Path) :
      (p.outputPath s input directory mode container).components =
        lead ++ .name (encode input.shownStem ++ underscore :: first) :: Path.stepsOf rest := by
    obtain ⟨hidle, hpart⟩ := ofPart_append_underscore (encode input.shownStem) first
    rw [Profile.outputPath, Path.ofString, p.outputName_eq, Text.Utf8.encode_append,
      encode_underscore_append, ← hpart]
    apply hlead _ _ _ _ hidle
    exact Text.split_append_of_notMem input.slash_notMem_shownStem hsplit
  rw [hcomponents, hcomponents]
  simp [Text.Utf8.encode_inj]

/-! ## Reports -/

/-- Every report of a batch is about an input with a plan, and names the output of the plan. -/
theorem Runner.Turns.planned {σ : Type} {r : Runner σ} {plan : Path → Except PlanFault Plan}
    {s s' : σ} {inputs : List Path} {seen : List Sight} {reports : List Report}
    (h : r.Turns plan s inputs seen reports s') :
    ∀ report ∈ reports, ∃ p, plan report.input = .ok p ∧ report.output = p.output := by
  induction h with
  | nil s => simp
  | cons hp _ _ ih =>
    intro report hreport
    rcases List.mem_cons.mp hreport with rfl | hreport
    · exact ⟨_, hp, rfl⟩
    · exact ih report hreport

theorem Profile.components_output_eq_iff {p : Profile} {s : Settings} {directory a b : Path}
    {planA planB : Plan} (ha : p.plan s a directory = .ok planA)
    (hb : p.plan s b directory = .ok planB) :
    planA.output.components = planB.output.components ↔ a.shownStem = b.shownStem := by
  obtain ⟨container, hmode, hcontainer, houtputA⟩ := output_of_plan ha
  obtain ⟨container', hmode', hcontainer', houtputB⟩ := output_of_plan hb
  have hsameMode : planB.mode = planA.mode := Except.ok.inj (hmode'.symm.trans hmode)
  have hsameContainer : container' = container := Except.ok.inj (hcontainer'.symm.trans hcontainer)
  rw [houtputA, houtputB, hsameMode, hsameContainer]
  exact components_outputPath_eq_iff a b

/-- Outputs are told apart by the stems of the inputs they are reported for. -/
theorem Runner.Turns.nodup_components_iff {σ : Type} {r : Runner σ} {p : Profile} {s : Settings}
    {directory : Path} {start finish : σ} {inputs : List Path} {seen : List Sight}
    {reports : List Report}
    (h : r.Turns (fun input => p.plan s input directory) start inputs seen reports finish) :
    (reports.map (·.output.components)).Nodup ↔ (inputs.map Path.shownStem).Nodup := by
  have hstems : inputs.map Path.shownStem = reports.map (·.input.shownStem) := by
    rw [← h.map_input, List.map_map]
    rfl
  rw [hstems, List.Nodup, List.Nodup, List.pairwise_map, List.pairwise_map]
  apply List.Pairwise.iff_of_mem
  intro a b ha hb
  obtain ⟨planA, hplanA, houtputA⟩ := h.planned a ha
  obtain ⟨planB, hplanB, houtputB⟩ := h.planned b hb
  rw [houtputA, houtputB]
  exact not_congr (Profile.components_output_eq_iff hplanA hplanB)

/-- The outputs of a batch with shared settings are distinct exactly if what is shown of the stems of
its inputs is, and that is told by the file names. -/
theorem nodup_outputs {σ : Type} {r : Runner σ} {p : Profile} {s : Settings} {directory : Path}
    {inputs : List Path} {start : σ × List Sight} {reports : List Report} {state : σ × List Sight}
    (hrun : ((Crew.observed r).runBatch (fun input => p.plan s input directory) inputs).run start =
      (.ok reports, state)) :
    ((reports.map (·.output.components)).Nodup ↔ (inputs.map Path.shownStem).Nodup) ∧
      ∀ (input : Path) (stem : String), input.shownStem = stem ↔ input.ShowsStem stem := by
  obtain ⟨seen, hturns⟩ := Runner.turns_of_run hrun
  exact ⟨hturns.nodup_components_iff, fun _ _ => Path.shownStem_eq_iff⟩

/-- A runner for which every command succeeds. -/
def Runner.idle : Runner Unit := fun _ s => (none, s)

/-- Inputs with different stems, one of them with two dots and one that is nothing but an extension. -/
theorem nodup_outputs_hevc :
    let inputs := [Path.ofString "a/x.y.mp4", .ofString "b/x.mp4", .ofString "b/.mp4"]
    ∃ reports state, ((Crew.observed Runner.idle).runBatch
        (fun input => Builtin.hevc.plan Builtin.hevc.defaultSettings input (.ofString "out"))
        inputs).run ((), []) = (.ok reports, state) ∧
      List.Forall₂ Path.ShowsStem inputs ["x.y", "x", ".mp4"] ∧
      (reports.map (·.output.components)).Nodup := by
  intro inputs
  obtain ⟨reports, state, hrun⟩ := Runner.exists_run_ok
    (fun input _ => exists_plan_hevc input (.ofString "out")) () []
  obtain ⟨hnodup, hstems⟩ := nodup_outputs hrun
  refine ⟨reports, state, hrun, ?_, hnodup.mpr (by decide)⟩
  exact .cons ((hstems _ _).mp (by decide)) (.cons ((hstems _ _).mp (by decide))
    (.cons ((hstems _ _).mp (by decide)) .nil))

/-- Not all batches have distinct outputs: the directory of an input does not tell. -/
theorem not_nodup_outputs :
    ¬ ∀ (r : Runner Unit) (p : Profile) (s : Settings) (directory : Path) (inputs : List Path)
      (reports : List Report) (state : Unit × List Sight),
      p ∈ builtinProfiles → p.storedFaults s = [] → (inputs.map Path.components).Nodup →
      ((Crew.observed r).runBatch (fun input => p.plan s input directory) inputs).run ((), []) =
        (.ok reports, state) →
      (reports.map (·.output.components)).Nodup := by
  intro h
  obtain ⟨reports, state, hrun⟩ := Runner.exists_run_ok
    (fun input _ => exists_plan_hevc input (.ofString "out")) () []
  have hdistinct := h Runner.idle Builtin.hevc Builtin.hevc.defaultSettings (.ofString "out")
    [.ofString "a/x.mp4", .ofString "b/x.mp4"] reports state (by simp [builtinProfiles])
    (by decide +kernel) (by decide) hrun
  obtain ⟨seen, hturns⟩ := Runner.turns_of_run hrun
  exact absurd (hturns.nodup_components_iff.mp hdistinct) (by decide)

end Transcode
