import Transcode.Host.Exit
import Transcode.Plan.Basic

/-!
# Batches

The inputs of a batch are transcoded one after the other, and so are the commands of an input. A
command that fails ends the turn of its input and of no other; an input without a plan ends the
batch.
-/

namespace Transcode

/-- How the turn of an input ended: the first command that failed, counted from zero, and why. -/
inductive Outcome where
  | succeeded
  | failed (command : Nat) (causes : Causes)
deriving DecidableEq

/-- What became of an input. -/
structure Report where
  input : Path
  output : Path
  outcome : Outcome
deriving DecidableEq

/-- Who carries out a batch: what is done when an input's turn comes, before a command runs, to run
it, and when it has failed. -/
structure Crew (m : Type → Type) where
  begin : Path → Plan → m Unit
  announce : Path → Command → m Unit
  execute : Command → m (Option Causes)
  giveUp : Path → Causes → m Unit

namespace Crew

variable {m : Type → Type} [Monad m]

/-- Runs commands up to the first one that fails; `index` counts those before them. -/
def runCommands (crew : Crew m) (input : Path) (index : Nat) : List Command → m Outcome
  | [] => pure .succeeded
  | c :: rest => do
    crew.announce input c
    match ← crew.execute c with
    | none => crew.runCommands input (index + 1) rest
    | some causes => do
      crew.giveUp input causes
      pure (.failed index causes)

def runBatch (crew : Crew m) (plan : Path → Except PlanFault Plan) :
    List Path → m (Except PlanFault (List Report))
  | [] => pure (.ok [])
  | input :: rest =>
    match plan input with
    | .error fault => pure (.error fault)
    | .ok p => do
      crew.begin input p
      let outcome ← crew.runCommands input 0 p.commands
      let reports ← crew.runBatch plan rest
      pure (reports.map (⟨input, p.output, outcome⟩ :: ·))

end Crew

def succeededCount (reports : List Report) : Nat :=
  reports.countP fun r => r.outcome == .succeeded

/-- The number of inputs that were not. -/
def failedCount (reports : List Report) : Nat :=
  reports.countP fun r => r.outcome != .succeeded

theorem succeededCount_add_failedCount (reports : List Report) :
    succeededCount reports + failedCount reports = reports.length := by
  simp only [succeededCount, failedCount, bne]
  induction reports with
  | nil => rfl
  | cons r rs ih =>
    cases h : r.outcome == .succeeded <;> simp [h] <;> omega

end Transcode
