import Transcode.Batch

/-! # What a batch runs

The turn of an input and a whole batch are described by what a runner answers, without the loop that
asks it. Every batch has such a description, and does what it says. -/

namespace Transcode

variable {σ : Type}

/-- Who runs the commands of a batch: a state that every command changes, and an answer, with causes
if the command has failed. -/
abbrev Runner (σ : Type) := Command → σ → Option Causes × σ

/-- What can be seen of a batch. -/
inductive Sight where
  | announced (input : Path) (command : Command)
  | executed (command : Command)
deriving DecidableEq

/-- A crew with a runner, which keeps a record of what is announced and of what is executed. -/
def Crew.observed (r : Runner σ) : Crew (StateM (σ × List Sight)) where
  begin _ _ := pure ()
  announce input c := modify fun (s, seen) => (s, seen ++ [.announced input c])
  execute c := modifyGet fun (s, seen) => ((r c s).1, (r c s).2, seen ++ [.executed c])
  giveUp _ _ := pure ()

/-- What is seen when commands are run for an input. -/
def sights (input : Path) (ran : List Command) : List Sight :=
  ran.flatMap fun c => [.announced input c, .executed c]

namespace Runner

/-- All commands succeed, one after the other. -/
inductive Succeeds (r : Runner σ) : σ → List Command → σ → Prop where
  | nil (s : σ) : Succeeds r s [] s
  | cons {s s₁ s₂ : σ} {c : Command} {commands : List Command} (command : r c s = (none, s₁))
      (rest : Succeeds r s₁ commands s₂) : Succeeds r s (c :: commands) s₂

/-- The turn of an input with some commands: which of them are run, and how it ends. Either all
succeed, or those before the first one that fails. -/
inductive Turn (r : Runner σ) (s : σ) : List Command → List Command → Outcome → σ → Prop where
  | succeeded {commands : List Command} {s' : σ} (all : r.Succeeds s commands s') :
      Turn r s commands commands .succeeded s'
  | failed {before after : List Command} {c : Command} {causes : Causes} {s₁ s' : σ}
      (first : r.Succeeds s before s₁) (failure : r c s₁ = (some causes, s')) :
      Turn r s (before ++ c :: after) (before ++ [c]) (.failed before.length causes) s'

/-- The turns of inputs that have plans, with what is seen of them and what is reported. -/
inductive Turns (r : Runner σ) (plan : Path → Except PlanFault Plan) :
    σ → List Path → List Sight → List Report → σ → Prop where
  | nil (s : σ) : Turns r plan s [] [] [] s
  | cons {s s₁ s₂ : σ} {input : Path} {p : Plan} {ran : List Command} {outcome : Outcome}
      {inputs : List Path} {seen : List Sight} {reports : List Report} (planned : plan input = .ok p)
      (turn : r.Turn s p.commands ran outcome s₁) (rest : Turns r plan s₁ inputs seen reports s₂) :
      Turns r plan s (input :: inputs) (sights input ran ++ seen)
        (⟨input, p.output, outcome⟩ :: reports) s₂

/-! ## Every batch has turns -/

theorem exists_turn (r : Runner σ) (s : σ) (commands : List Command) :
    ∃ ran outcome s', r.Turn s commands ran outcome s' := by
  induction commands generalizing s with
  | nil => exact ⟨[], .succeeded, s, .succeeded (.nil s)⟩
  | cons c commands ih =>
    rcases hc : r c s with ⟨_ | causes, s₁⟩
    · obtain ⟨ran, outcome, s', hturn⟩ := ih s₁
      cases hturn with
      | succeeded hall => exact ⟨_, _, s', .succeeded (.cons hc hall)⟩
      | failed hfirst hfailure => exact ⟨_, _, s', .failed (.cons hc hfirst) hfailure⟩
    · exact ⟨_, _, s₁, @Turn.failed _ r s [] commands c causes s s₁ (.nil s) hc⟩

/-- All inputs have plans, or those before the first one that has none. -/
theorem exists_turns (r : Runner σ) (plan : Path → Except PlanFault Plan) (s : σ)
    (inputs : List Path) :
    ∃ done seen reports s', r.Turns plan s done seen reports s' ∧
      (done = inputs ∨ ∃ input later fault, inputs = done ++ input :: later ∧
        plan input = .error fault) := by
  induction inputs generalizing s with
  | nil => exact ⟨[], [], [], s, .nil s, .inl rfl⟩
  | cons input inputs ih =>
    cases hp : plan input with
    | error fault => exact ⟨[], [], [], s, .nil s, .inr ⟨input, inputs, fault, rfl, hp⟩⟩
    | ok p =>
      obtain ⟨ran, outcome, s₁, hturn⟩ := r.exists_turn s p.commands
      obtain ⟨done, seen, reports, s₂, hrest, hend⟩ := ih s₁
      refine ⟨input :: done, _, _, s₂, .cons hp hturn hrest, ?_⟩
      rcases hend with rfl | ⟨next, later, fault, rfl, hfault⟩
      · exact .inl rfl
      · exact .inr ⟨next, later, fault, rfl, hfault⟩

/-! ## A batch does what its turns say -/

variable {r : Runner σ} {plan : Path → Except PlanFault Plan} {s s₁ s' : σ} {input : Path}
  {commands : List Command}

theorem runCommands_none {c : Command} (h : r c s = (none, s')) (index : Nat)
    (rest : List Command) (seen : List Sight) :
    ((Crew.observed r).runCommands input index (c :: rest)).run (s, seen) =
      ((Crew.observed r).runCommands input (index + 1) rest).run
        (s', seen ++ [.announced input c, .executed c]) := by
  simp [Crew.runCommands, Crew.observed, h]

theorem runCommands_some {c : Command} {causes : Causes} (h : r c s = (some causes, s'))
    (index : Nat) (rest : List Command) (seen : List Sight) :
    ((Crew.observed r).runCommands input index (c :: rest)).run (s, seen) =
      (.failed index causes, s', seen ++ [.announced input c, .executed c]) := by
  simp [Crew.runCommands, Crew.observed, h]
  rfl

theorem Succeeds.run (h : r.Succeeds s commands s₁) (index : Nat) (rest : List Command)
    (seen : List Sight) :
    ((Crew.observed r).runCommands input index (commands ++ rest)).run (s, seen) =
      ((Crew.observed r).runCommands input (index + commands.length) rest).run
        (s₁, seen ++ sights input commands) := by
  induction h generalizing index seen with
  | nil s => simp [sights]
  | @cons s s₁ s₂ c commands hc hrest ih =>
    rw [List.cons_append, runCommands_none hc, ih, List.length_cons, Nat.add_right_comm,
      List.append_assoc]
    rfl

theorem Turn.run {ran : List Command} {outcome : Outcome} (h : r.Turn s commands ran outcome s')
    (input : Path) (seen : List Sight) :
    ((Crew.observed r).runCommands input 0 commands).run (s, seen) =
      (outcome, s', seen ++ sights input ran) := by
  cases h with
  | succeeded hall =>
    rw [← List.append_nil commands, hall.run, List.append_nil]
    rfl
  | failed hfirst hfailure =>
    rw [hfirst.run, runCommands_some hfailure, Nat.zero_add, sights, sights, List.flatMap_append,
      List.append_assoc]
    rfl

variable {x : Except PlanFault (List Report)} {state : σ × List Sight}

theorem runBatch_ok {p : Plan} {ran : List Command} {outcome : Outcome} {rest : List Path}
    {seen : List Sight} (hp : plan input = .ok p) (hturn : r.Turn s p.commands ran outcome s₁)
    (hrest : ((Crew.observed r).runBatch plan rest).run (s₁, seen ++ sights input ran) =
      (x, state)) :
    ((Crew.observed r).runBatch plan (input :: rest)).run (s, seen) =
      (x.map (⟨input, p.output, outcome⟩ :: ·), state) := by
  have hbegin : (Crew.observed r).begin input p = pure () := rfl
  have hbatch : ((Crew.observed r).runBatch plan (input :: rest)).run (s, seen) =
      let turn := ((Crew.observed r).runCommands input 0 p.commands).run (s, seen)
      let others := ((Crew.observed r).runBatch plan rest).run turn.2
      (others.1.map (⟨input, p.output, turn.1⟩ :: ·), others.2) := by
    simp only [Crew.runBatch, hp, hbegin, pure_bind]
    rfl
  rw [hbatch, hturn.run]
  simp only [hrest]

theorem runBatch_error {fault : PlanFault} (hp : plan input = .error fault) (rest : List Path)
    (state : σ × List Sight) :
    ((Crew.observed r).runBatch plan (input :: rest)).run state = (.error fault, state) := by
  rw [Crew.runBatch, hp]
  rfl

/-- After the turns of some inputs a batch goes on with the others. -/
theorem Turns.run {done later : List Path} {before seen : List Sight} {reports : List Report}
    (h : r.Turns plan s done seen reports s')
    (hlater : ((Crew.observed r).runBatch plan later).run (s', before ++ seen) = (x, state)) :
    ((Crew.observed r).runBatch plan (done ++ later)).run (s, before) =
      (x.map (reports ++ ·), state) := by
  -- Every turn adds to the record, so the induction is over every record before it.
  induction h generalizing before with
  | nil s =>
    rw [List.append_nil] at hlater
    rw [List.nil_append, hlater]
    cases x <;> rfl
  | @cons s s₁ s₂ input p ran outcome inputs seen reports hp hturn hrest ih =>
    rw [← List.append_assoc] at hlater
    rw [List.cons_append, runBatch_ok hp hturn (ih hlater)]
    cases x <;> rfl

theorem Turns.run_all {inputs : List Path} {seen : List Sight} {reports : List Report}
    (h : r.Turns plan s inputs seen reports s') (before : List Sight) :
    ((Crew.observed r).runBatch plan inputs).run (s, before) =
      (.ok reports, s', before ++ seen) := by
  have hlater : ((Crew.observed r).runBatch plan []).run (s', before ++ seen) =
      (.ok [], s', before ++ seen) := rfl
  have hall := h.run hlater
  rwa [List.append_nil, Except.map, List.append_nil] at hall

theorem Turns.map_input {done : List Path} {seen : List Sight} {reports : List Report}
    (h : r.Turns plan s done seen reports s') : reports.map (·.input) = done := by
  induction h with
  | nil s => rfl
  | cons _ _ _ ih => rw [List.map_cons, ih]

/-- A batch ends with reports if all its inputs have plans. -/
theorem exists_run_ok {inputs : List Path} (hplans : ∀ input ∈ inputs, ∃ p, plan input = .ok p)
    (s : σ) (before : List Sight) : ∃ reports state,
      ((Crew.observed r).runBatch plan inputs).run (s, before) = (.ok reports, state) := by
  obtain ⟨done, seen, reports, s', hturns, hend⟩ := r.exists_turns plan s inputs
  rcases hend with rfl | ⟨input, later, fault, rfl, hfault⟩
  · exact ⟨reports, _, hturns.run_all before⟩
  · obtain ⟨p, hp⟩ := hplans input (by simp)
    rw [hfault] at hp
    cases hp

/-- A batch that ends with reports has had the turns of all its inputs. -/
theorem turns_of_run {inputs : List Path} {before : List Sight} {reports : List Report}
    (h : ((Crew.observed r).runBatch plan inputs).run (s, before) = (.ok reports, state)) :
    ∃ seen, r.Turns plan s inputs seen reports state.1 := by
  obtain ⟨done, seen, reports', s', hturns, hend⟩ := r.exists_turns plan s inputs
  rcases hend with rfl | ⟨input, later, fault, rfl, hfault⟩
  · rw [hturns.run_all before] at h
    cases h
    exact ⟨seen, hturns⟩
  · rw [hturns.run (runBatch_error hfault later _)] at h
    cases h

end Runner

/-- A batch has the turns of all its inputs, or those before the first one without a plan. In the
first case it reports on all inputs, in the second one it ends with the fault; either way nothing but
the turns is seen of it. -/
theorem runBatch_observed (r : Runner σ) (plan : Path → Except PlanFault Plan)
    (inputs : List Path) (s : σ) :
    ∃ done seen reports s', r.Turns plan s done seen reports s' ∧
      ((done = inputs ∧
        ((Crew.observed r).runBatch plan inputs).run (s, []) = (.ok reports, s', seen) ∧
        reports.map (·.input) = inputs ∧
        succeededCount reports + failedCount reports = inputs.length) ∨
      ∃ input later fault, inputs = done ++ input :: later ∧ plan input = .error fault ∧
        ((Crew.observed r).runBatch plan inputs).run (s, []) = (.error fault, s', seen)) := by
  obtain ⟨done, seen, reports, s', hturns, hend⟩ := r.exists_turns plan s inputs
  refine ⟨done, seen, reports, s', hturns, ?_⟩
  rcases hend with rfl | ⟨input, later, fault, rfl, hfault⟩
  · left
    refine ⟨rfl, hturns.run_all [], hturns.map_input, ?_⟩
    rw [succeededCount_add_failedCount, ← hturns.map_input, List.length_map]
  · right
    refine ⟨input, later, fault, rfl, hfault, ?_⟩
    rw [hturns.run (Runner.runBatch_error hfault later _)]
    rfl

end Transcode
