import Transcode.Proofs.Batch.Trace
import Transcode.Proofs.Plan.Faults

/-! # Batches with shared settings

All inputs of a batch have plans, or none has. So a batch that ends with a fault has run nothing, and
otherwise its inputs go through commands that differ in nothing but the files. -/

namespace Transcode

/-- Commands for two inputs that have their arguments in common, but for the input and, where a
command has one, the output at the end. -/
inductive Command.Parallel (input output input' output' : Path) : Command → Command → Prop where
  | discarding (rest : List Argument) :
      Parallel input output input' output'
        ⟨encoderProgram, .bare "-y" :: .bare "-i" :: ⟨input.bytes, true⟩ :: rest⟩
        ⟨encoderProgram, .bare "-y" :: .bare "-i" :: ⟨input'.bytes, true⟩ :: rest⟩
  | writing (middle : List Argument) :
      Parallel input output input' output'
        ⟨encoderProgram, .bare "-y" :: .bare "-i" :: ⟨input.bytes, true⟩ ::
          (middle ++ [⟨output.bytes, true⟩])⟩
        ⟨encoderProgram, .bare "-y" :: .bare "-i" :: ⟨input'.bytes, true⟩ ::
          (middle ++ [⟨output'.bytes, true⟩])⟩

namespace Profile

variable {p : Profile} {s : Settings} {directory : Path}

theorem exists_videoArguments (p : Profile) (r : Rendering) (pass : Pass) :
    ∃ rest, ∀ input : Path, p.videoArguments r input pass =
      .bare "-y" :: .bare "-i" :: ⟨input.bytes, true⟩ :: rest := by
  refine ⟨joinedOption "-vf" "," r.videoFilters ++ [.bare "-c:v", .bare p.videoCodec] ++
    r.videoOptions.map .bare ++ p.passOption pass ++ p.vendorOption r pass, fun input => ?_⟩
  simp only [videoArguments, List.append_assoc, List.cons_append, List.nil_append]

theorem exists_closingArguments (r : Rendering) {pass : Pass} (hpass : pass ≠ .analysis) :
    ∃ sound, ∀ output : Path, closingArguments r output pass = sound ++ [⟨output.bytes, true⟩] := by
  cases pass with
  | analysis => exact absurd rfl hpass
  | single | encode => exact ⟨_, fun output => rfl⟩

theorem parallel_command (r : Rendering) (input output input' output' : Path) (pass : Pass) :
    Command.Parallel input output input' output' (p.command r input output pass)
      (p.command r input' output' pass) := by
  obtain ⟨rest, hvideo⟩ := p.exists_videoArguments r pass
  rw [command, command, hvideo, hvideo]
  by_cases hpass : pass = .analysis
  · subst hpass
    exact .discarding _
  · obtain ⟨sound, hclosing⟩ := exists_closingArguments r hpass
    rw [hclosing, hclosing]
    simp only [List.cons_append, ← List.append_assoc]
    exact .writing _

theorem parallel_commands {a b : Path} {planA planB : Plan} (ha : p.plan s a directory = .ok planA)
    (hb : p.plan s b directory = .ok planB) :
    List.Forall₂ (Command.Parallel a planA.output b planB.output) planA.commands
      planB.commands := by
  obtain ⟨mode, c, fix, hmode, -, hfix, rfl⟩ := plan_eq_ok_iff.mp ha
  obtain ⟨mode', c', fix', hmode', -, hfix', rfl⟩ := plan_eq_ok_iff.mp hb
  obtain rfl : mode = mode' := Except.ok.inj (hmode.symm.trans hmode')
  obtain rfl : fix = fix' := Except.ok.inj (hfix.symm.trans hfix')
  simp only [List.forall₂_map_left_iff, List.forall₂_map_right_iff, List.forall₂_same]
  intro pass _
  exact parallel_command _ _ _ _ _ pass

end Profile

/-- Where a fault of one input is that of all, a batch ends with it before anything is announced or
executed. -/
theorem Runner.runBatch_eq_error_iff {σ : Type} {r : Runner σ} {plan : Path → Except PlanFault Plan}
    (hplan : ∀ a b fault, plan a = .error fault → plan b = .error fault) (inputs : List Path)
    (fault : PlanFault) (start : σ) (before : List Sight) (state : σ × List Sight) :
    ((Crew.observed r).runBatch plan inputs).run (start, before) = (.error fault, state) ↔
      (∃ input ∈ inputs, plan input = .error fault) ∧ state = (start, before) := by
  cases inputs with
  | nil =>
    simp only [List.not_mem_nil, false_and, exists_false, iff_false]
    exact nofun
  | cons first rest =>
    cases hfirst : plan first with
    | error fault' =>
      rw [runBatch_error hfirst]
      constructor
      · rintro ⟨⟩
        exact ⟨⟨first, by simp, hfirst⟩, rfl⟩
      · rintro ⟨⟨input, -, hinput⟩, rfl⟩
        obtain rfl := Except.error.inj (hfirst.symm.trans (hplan input first fault hinput))
        rfl
    | ok p =>
      have hfaultless (input : Path) (fault : PlanFault) : plan input ≠ .error fault := by
        intro hinput
        rw [hplan input first fault hinput] at hfirst
        cases hfirst
      have hplans : ∀ input ∈ first :: rest, ∃ p, plan input = .ok p :=
        fun input _ => exists_ok_iff.mpr (hfaultless input)
      obtain ⟨reports, state', hrun⟩ := exists_run_ok (r := r) hplans start before
      rw [hrun]
      constructor
      · intro h
        cases h
      · rintro ⟨⟨input, -, hinput⟩, -⟩
        exact absurd hinput (hfaultless input fault)

/-- Whether there are plans, and which fault there is otherwise, is the same for all inputs, and told
by the settings. The plans of two inputs differ in nothing but the files. A batch ends with a fault
exactly if its settings have one and there are inputs, and then nothing is announced or executed. -/
theorem plan_uniform (p : Profile) (s : Settings) (directory : Path) :
    (∀ (input : Path) (fault : PlanFault),
      p.plan s input directory = .error fault ↔ p.Refuses s fault) ∧
    (∀ (a b : Path) (planA planB : Plan), p.plan s a directory = .ok planA →
      p.plan s b directory = .ok planB →
      List.Forall₂ (Command.Parallel a planA.output b planB.output) planA.commands
        planB.commands) ∧
    ∀ (σ : Type) (r : Runner σ) (inputs : List Path) (start : σ) (fault : PlanFault)
      (state : σ × List Sight),
      ((Crew.observed r).runBatch (fun input => p.plan s input directory) inputs).run (start, []) =
          (.error fault, state) ↔
        inputs ≠ [] ∧ p.Refuses s fault ∧ state = (start, []) := by
  refine ⟨fun _ _ => Profile.plan_eq_error_iff, fun _ _ _ _ => Profile.parallel_commands, ?_⟩
  intro σ r inputs start fault state
  have hplan (a b : Path) (fault : PlanFault) (h : p.plan s a directory = .error fault) :
      p.plan s b directory = .error fault :=
    Profile.plan_eq_error_iff.mpr (Profile.plan_eq_error_iff.mp h)
  have hinputs : (∃ input, input ∈ inputs) ↔ inputs ≠ [] :=
    ⟨fun ⟨_, hinput⟩ => List.ne_nil_of_mem hinput, List.exists_mem_of_ne_nil inputs⟩
  rw [Runner.runBatch_eq_error_iff hplan, ← and_assoc]
  simp only [Profile.plan_eq_error_iff, exists_and_right, hinputs]

/-- Two inputs with plans, and the same inputs in a batch whose settings have a third word for the
passes. -/
theorem plan_uniform_vp9 :
    let p := Builtin.vp9
    let s := p.defaultSettings
    let s' := s.insert Key.passes (.text "Three-Pass")
    let a := Path.ofString "a.mov"
    let b := Path.ofString "b/c.mkv"
    let directory := Path.ofString "out"
    (∃ planA planB, p.plan s a directory = .ok planA ∧ p.plan s b directory = .ok planB ∧
      List.Forall₂ (Command.Parallel a planA.output b planB.output) planA.commands
        planB.commands) ∧
    ((Crew.observed fun _ (count : Nat) => (none, count + 1)).runBatch
      (fun input => p.plan s' input directory) [a, b]).run (0, []) =
        (.error (.invalidPassMode "Three-Pass"), (0, [])) := by
  intro p s s' a b directory
  obtain ⟨planA, hA⟩ : ∃ plan, p.plan s a directory = .ok plan :=
    exists_ok_of_isOk (by decide +kernel)
  obtain ⟨planB, hB⟩ : ∃ plan, p.plan s b directory = .ok plan :=
    exists_ok_of_isOk (by decide +kernel)
  obtain ⟨-, hparallel, -⟩ := plan_uniform p s directory
  obtain ⟨-, -, hbatch⟩ := plan_uniform p s' directory
  have hstored : s'.get? Key.passes = some (.text "Three-Pass") := by decide +kernel
  refine ⟨⟨planA, planB, hA, hB, hparallel a b planA planB hA hB⟩, ?_⟩
  exact (hbatch _ _ _ _ _ _).mpr ⟨by simp, .passes hstored (by decide), rfl⟩

end Transcode
