import Mathlib.Data.List.TakeWhile
import Transcode.Host.World

/-! # What is shown and asked in a world -/

namespace Transcode.World

theorem run_bind {α β : Type} (x : StateM World α) (f : α → StateM World β) (w : World) :
    (x >>= f).run w = (f (x.run w).1).run (x.run w).2 :=
  rfl

/-- Files and lines are as they were; at most something more has been seen. -/
def Resembles (w w' : World) : Prop :=
  w'.tree = w.tree ∧ w'.input = w.input

theorem Resembles.trans {w w' w'' : World} (h : w.Resembles w') (h' : w'.Resembles w'') :
    w.Resembles w'' :=
  ⟨h'.1.trans h.1, h'.2.trans h.2⟩

theorem Resembles.symm {w w' : World} (h : w.Resembles w') : w'.Resembles w :=
  ⟨h.1.symm, h.2.symm⟩

theorem note_resembles (w : World) (level : LogLevel) (message : String) :
    w.Resembles (w.note level message) := by
  rw [note]
  split <;> exact ⟨rfl, rfl⟩

theorem present_resembles (w : World) (event : Event) : w.Resembles (w.present event) := by
  cases event with
  | store key value => exact w.note_resembles _ _
  | clear | say | ask => exact ⟨rfl, rfl⟩

theorem foldl_present_resembles (w : World) (events : List Event) :
    w.Resembles (events.foldl present w) := by
  induction events generalizing w with
  | nil => exact ⟨rfl, rfl⟩
  | cons event events ih => exact (w.present_resembles event).trans (ih _)

theorem foldl_note_resembles {α : Type} (w : World) (level : LogLevel) (as : List α)
    (message : α → String) :
    w.Resembles (as.foldl (fun w a => w.note level (message a)) w) := by
  induction as generalizing w with
  | nil => exact ⟨rfl, rfl⟩
  | cons a as ih => exact (note_resembles w _ _).trans (ih _)

/-! ## Dialogues over waiting lines -/

/-- The same world with other lines that wait. -/
def withInput (w : World) (input : List Text.Bytes) : World :=
  { w with input := input }

theorem foldl_present_withInput (w : World) (events : List Event) (input : List Text.Bytes) :
    events.foldl present (w.withInput input) = (events.foldl present w).withInput input := by
  induction events generalizing w with
  | nil => rfl
  | cons event events ih =>
    have hpresent : (w.withInput input).present event = (w.present event).withInput input := by
      cases event with
      | store key value =>
        rw [present, present, note, note]
        split
        · rw [if_pos ‹_›]
          rfl
        · rw [if_neg ‹_›]
      | clear | say | ask => rfl
    rw [List.foldl_cons, hpresent, ih, List.foldl_cons]

/-- A dialogue over lines that are all text is a run over these texts. -/
theorem converse_eq_run {σ ρ : Type} (d : Dialogue σ ρ) (s : σ) {w : World} {script : List String}
    (hscript : w.input.map lineText? = script.map some) :
    converse d s w = (.ok (d.run s script).result,
      ((d.run s script).events.foldl present w).withInput
        (w.input.drop (script.length - (d.run s script).unread.length))) := by
  have hlines : ((w.input.map lineText?).takeWhile Option.isSome).filterMap id = script := by
    rw [hscript, List.takeWhile_eq_self_iff.mpr (by simp), List.filterMap_map]
    exact List.filterMap_some
  have hlength : w.input.length = script.length := by
    simpa using congrArg List.length hscript
  have hdrop : w.input.drop script.length = [] := by
    rw [← hlength, List.drop_length]
  simp only [converse, hlines, Dialogue.run]
  cases (d.feed s script).stand with
  | done result => exact congrArg (Prod.mk _) (foldl_present_withInput _ _ _)
  | ask s' =>
    simp only [hdrop, List.length_nil, Nat.sub_zero]
    exact congrArg (Prod.mk _) (foldl_present_withInput _ _ _)

/-- A dialogue is over when its script is, if the lines that wait are those of the script. -/
theorem converse_eq {σ ρ : Type} {d : Dialogue σ ρ} {s : σ} {w : World} {script : List String}
    {r : ρ} (hscript : w.input.map lineText? = script.map some)
    (hdone : (d.feed s script).stand = .done (r, [])) :
    ∃ w', converse d s w = (.ok r, w') ∧ w'.tree = w.tree := by
  have hresult : (d.run s script).result = r := by
    simp only [Dialogue.run, hdone]
  refine ⟨_, hresult ▸ converse_eq_run d s hscript, ?_⟩
  exact (foldl_present_resembles w _).1

end Transcode.World
