import Mathlib.Data.List.Forall2
import Transcode.Proofs.Batch.Trace

/-! # Batches on machines

A crew on some machine does what a runner says if each of its actions does, as a relation between the
machine and the runner's record tells. Then the batches of the crew have the turns that the runner
gives them. -/

namespace Transcode

variable {σ ω : Type} {r : Runner σ} {crew : Crew (StateM ω)} {R : ω → σ → List Sight → Prop}

/-- Every action of a crew keeps a relation between the machine and what has become of the runner and
of its record, and a command has the answer that the runner gives. -/
structure Crew.Obeys (crew : Crew (StateM ω)) (r : Runner σ) (R : ω → σ → List Sight → Prop) :
    Prop where
  begin : ∀ {w s seen} (input : Path) (p : Plan), R w s seen →
    R ((crew.begin input p).run w).2 s seen
  announce : ∀ {w s seen} (input : Path) (c : Command), R w s seen →
    R ((crew.announce input c).run w).2 s (seen ++ [.announced input c])
  execute : ∀ {w s seen} (c : Command), R w s seen →
    ((crew.execute c).run w).1 = (r c s).1 ∧
      R ((crew.execute c).run w).2 (r c s).2 (seen ++ [.executed c])
  giveUp : ∀ {w s seen} (input : Path) (causes : Causes), R w s seen →
    R ((crew.giveUp input causes).run w).2 s seen

/-! ## The steps of a batch -/

namespace Crew

theorem runCommands_run (crew : Crew (StateM ω)) (input : Path) (index : Nat) (c : Command)
    (rest : List Command) (w : ω) :
    (crew.runCommands input index (c :: rest)).run w =
      let answered := (crew.execute c).run ((crew.announce input c).run w).2
      match answered.1 with
      | none => (crew.runCommands input (index + 1) rest).run answered.2
      | some causes => (.failed index causes, ((crew.giveUp input causes).run answered.2).2) := by
  have hstep : (crew.runCommands input index (c :: rest)).run w =
      let answered := (crew.execute c).run ((crew.announce input c).run w).2
      (match answered.1 with
        | none => crew.runCommands input (index + 1) rest
        | some causes => do
          crew.giveUp input causes
          pure (.failed index causes)).run answered.2 := rfl
  rw [hstep]
  rcases (crew.execute c).run ((crew.announce input c).run w).2 with ⟨_ | causes, w₁⟩ <;> rfl

theorem runBatch_run (crew : Crew (StateM ω)) {plan : Path → Except PlanFault Plan} {input : Path}
    {p : Plan} (hp : plan input = .ok p) (rest : List Path) (w : ω) :
    (crew.runBatch plan (input :: rest)).run w =
      let turn := (crew.runCommands input 0 p.commands).run ((crew.begin input p).run w).2
      let others := (crew.runBatch plan rest).run turn.2
      (others.1.map (⟨input, p.output, turn.1⟩ :: ·), others.2) := by
  rw [Crew.runBatch, hp]
  rfl

end Crew

namespace Crew.Obeys

theorem runCommands (h : crew.Obeys r R) (input : Path) (index : Nat) (commands : List Command)
    {w : ω} {s : σ} {seen : List Sight} (hR : R w s seen) : ∃ outcome w' s' seen',
      (crew.runCommands input index commands).run w = (outcome, w') ∧
      ((Crew.observed r).runCommands input index commands).run (s, seen) = (outcome, s', seen') ∧
      R w' s' seen' := by
  induction commands generalizing index w s seen with
  | nil => exact ⟨.succeeded, w, s, seen, rfl, rfl, hR⟩
  | cons c commands ih =>
    obtain ⟨hresult, hafter⟩ := h.execute c (h.announce input c hR)
    rw [List.append_assoc] at hafter
    rcases hx : (crew.execute c).run ((crew.announce input c).run w).2 with ⟨failure, w₁⟩
    rw [hx] at hresult hafter
    rcases hc : r c s with ⟨_ | causes, s₁⟩
    · obtain rfl : failure = none := hresult.trans (congrArg Prod.fst hc)
      rw [hc] at hafter
      obtain ⟨outcome, w', s', seen', hrun, hobserved, hend⟩ := ih (index + 1) hafter
      refine ⟨outcome, w', s', seen', ?_, ?_, hend⟩
      · rw [runCommands_run, hx]
        exact hrun
      · rw [Runner.runCommands_none hc]
        exact hobserved
    · obtain rfl : failure = some causes := hresult.trans (congrArg Prod.fst hc)
      rw [hc] at hafter
      refine ⟨.failed index causes, ((crew.giveUp input causes).run w₁).2, s₁, _, ?_,
        Runner.runCommands_some hc index commands seen, h.giveUp input causes hafter⟩
      rw [runCommands_run, hx]

theorem runBatch (h : crew.Obeys r R) (plan : Path → Except PlanFault Plan) (inputs : List Path)
    {w : ω} {s : σ} {seen : List Sight} (hR : R w s seen) : ∃ result w' s' seen',
      (crew.runBatch plan inputs).run w = (result, w') ∧
      ((Crew.observed r).runBatch plan inputs).run (s, seen) = (result, s', seen') ∧
      R w' s' seen' := by
  induction inputs generalizing w s seen with
  | nil => exact ⟨.ok [], w, s, seen, rfl, rfl, hR⟩
  | cons input inputs ih =>
    cases hp : plan input with
    | error fault =>
      refine ⟨.error fault, w, s, seen, ?_, Runner.runBatch_error hp inputs _, hR⟩
      rw [Crew.runBatch, hp]
      rfl
    | ok p =>
      obtain ⟨outcome, w₁, s₁, seen₁, hrun, hobserved, hturn⟩ :=
        h.runCommands input 0 p.commands (h.begin input p hR)
      obtain ⟨result, w', s', seen', hrest, hrest', hend⟩ := ih hturn
      refine ⟨result.map (⟨input, p.output, outcome⟩ :: ·), w', s', seen', ?_, ?_, hend⟩
      · rw [runBatch_run crew hp]
        simp only [hrun, hrest]
      · have hbegin : (((Crew.observed r).begin input p).run (s, seen)).2 = (s, seen) := rfl
        rw [runBatch_run _ hp]
        simp only [hbegin, hobserved, hrest']

/-- A batch whose inputs have plans has the turns of all of them. -/
theorem exists_turns (h : crew.Obeys r R) {plan : Path → Except PlanFault Plan}
    {inputs : List Path} (hplans : ∀ input ∈ inputs, ∃ p, plan input = .ok p) {w : ω} {s : σ}
    (hR : R w s []) : ∃ reports w' s' seen,
      (crew.runBatch plan inputs).run w = (.ok reports, w') ∧
      r.Turns plan s inputs seen reports s' ∧ R w' s' seen := by
  obtain ⟨result, w', s', seen, hrun, hobserved, hend⟩ := h.runBatch plan inputs hR
  obtain ⟨done, seen', reports, s'', hturns, hdone⟩ := r.exists_turns plan s inputs
  rcases hdone with rfl | ⟨input, later, fault, rfl, hfault⟩
  · rw [hturns.run_all] at hobserved
    cases hobserved
    exact ⟨reports, w', _, _, hrun, hturns, hend⟩
  · obtain ⟨p, hp⟩ := hplans input (by simp)
    rw [hfault] at hp
    cases hp

end Crew.Obeys

/-! ## What turns run of plans -/

/-- Some of a plan's commands have been run from the first one on, and all of them but maybe the last
one have some property. -/
structure Plan.Begun (Q : Command → Prop) (p : Plan) (ran : List Command) : Prop where
  ne_nil : ran ≠ []
  isPrefix : ran <+: p.commands
  dropLast : ∀ c ∈ ran.dropLast, Q c

namespace Runner

variable {I : σ → Prop} {Q : Command → Prop} {plan : Path → Except PlanFault Plan} {s s' : σ}
  {commands ran : List Command} {outcome : Outcome}

/-- A runner keeps an invariant, under which the commands that succeed have some property. -/
structure Assures (r : Runner σ) (I : σ → Prop) (Q : Command → Prop) : Prop where
  keeps : ∀ {c s}, I s → I (r c s).2
  succeeds : ∀ {c s}, I s → (r c s).1 = none → Q c

theorem Assures.succeeds_all (hr : r.Assures I Q) (h : r.Succeeds s commands s') (hs : I s) :
    I s' ∧ ∀ c ∈ commands, Q c := by
  induction h with
  | nil s => exact ⟨hs, nofun⟩
  | @cons s s₁ s₂ c commands hc _ ih =>
    have hnext := hr.keeps (c := c) hs
    rw [hc] at hnext
    obtain ⟨hend, hall⟩ := ih hnext
    exact ⟨hend, List.forall_mem_cons.mpr ⟨hr.succeeds hs (congrArg Prod.fst hc), hall⟩⟩

theorem Assures.turn (hr : r.Assures I Q) (h : r.Turn s commands ran outcome s') (hs : I s) :
    I s' ∧ (∀ c ∈ ran.dropLast, Q c) ∧
      (outcome = .succeeded → ran = commands ∧ ∀ c ∈ ran, Q c) := by
  cases h with
  | succeeded hall =>
    obtain ⟨hend, hcommands⟩ := hr.succeeds_all hall hs
    exact ⟨hend, fun c hc => hcommands c (List.dropLast_subset _ hc), fun _ => ⟨rfl, hcommands⟩⟩
  | @failed before after c causes s₁ _ hfirst hfailure =>
    obtain ⟨hmiddle, hbefore⟩ := hr.succeeds_all hfirst hs
    have hend := hr.keeps (c := c) hmiddle
    rw [hfailure] at hend
    exact ⟨hend, by rwa [List.dropLast_concat], nofun⟩

theorem Turn.isPrefix (h : r.Turn s commands ran outcome s') : ran <+: commands := by
  cases h with
  | succeeded _ => exact List.prefix_rfl
  | @failed before after c causes s₁ _ _ _ => exact ⟨after, by simp⟩

theorem Turn.ne_nil (h : r.Turn s commands ran outcome s') (hcommands : commands ≠ []) :
    ran ≠ [] := by
  cases h with
  | succeeded _ => exact hcommands
  | failed _ _ => simp

/-- Input by input, turns run commands of a plan from its first one on, and if all turns end well they
run all commands. -/
theorem Assures.exists_runs (hr : r.Assures I Q) {inputs : List Path} {plans : List Plan}
    {seen : List Sight} {reports : List Report} (h : r.Turns plan s inputs seen reports s')
    (hs : I s) (hplans : List.Forall₂ (fun input p => plan input = .ok p) inputs plans)
    (hcommands : ∀ input p, plan input = .ok p → p.commands ≠ []) : ∃ runs,
      List.Forall₂ (Plan.Begun Q) plans runs ∧
      seen = (inputs.zip runs).flatMap (fun x => sights x.1 x.2) ∧
      (failedCount reports = 0 →
        runs = plans.map (·.commands) ∧ ∀ ran ∈ runs, ∀ c ∈ ran, Q c) := by
  induction h generalizing plans with
  | nil s =>
    cases hplans
    exact ⟨[], .nil, rfl, fun _ => ⟨rfl, nofun⟩⟩
  | @cons s s₁ s₂ input p ran outcome inputs seen reports hp hturn _ ih =>
    cases hplans with
    | @cons _ p' _ plans hp' hplans =>
    obtain rfl : p = p' := Except.ok.inj (hp.symm.trans hp')
    obtain ⟨hnext, hdrop, hsucceeded⟩ := hr.turn hturn hs
    obtain ⟨runs, hruns, rfl, hall⟩ := ih hnext hplans
    have hbegun : p.Begun Q ran := ⟨hturn.ne_nil (hcommands input p hp), hturn.isPrefix, hdrop⟩
    refine ⟨ran :: runs, .cons hbegun hruns, rfl, fun hnone => ?_⟩
    rw [failedCount, List.countP_cons] at hnone
    cases outcome with
    | failed index causes => simp at hnone
    | succeeded =>
      obtain ⟨hran, hfirst⟩ := hsucceeded rfl
      obtain ⟨hruns, hrest⟩ := hall (by simpa [failedCount] using hnone)
      rw [List.map_cons, hran, hruns]
      exact ⟨rfl, List.forall_mem_cons.mpr ⟨hran ▸ hfirst, hruns ▸ hrest⟩⟩

theorem Turn.succeeds (hr : ∀ c s, (r c s).1 = none) (h : r.Turn s commands ran outcome s') :
    outcome = .succeeded := by
  cases h with
  | succeeded _ => rfl
  | @failed before after c causes s₁ _ _ hfailure =>
    have hnone := hr c s₁
    rw [hfailure] at hnone
    cases hnone

/-- Where no command fails, no input does. -/
theorem Turns.failedCount_eq_zero (hr : ∀ c s, (r c s).1 = none) {inputs : List Path}
    {seen : List Sight} {reports : List Report} (h : r.Turns plan s inputs seen reports s') :
    failedCount reports = 0 := by
  induction h with
  | nil s => rfl
  | cons hp hturn _ ih =>
    obtain rfl := hturn.succeeds hr
    simpa [failedCount] using ih

end Runner

end Transcode
