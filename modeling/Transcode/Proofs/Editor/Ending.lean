import Transcode.Profile.Builtin
import Transcode.Proofs.Editor.Change

/-! # How a session ends

A session reads the lines of its script in their order and no line twice. It is over at a blank line
that is read at the menu; if there is none, all lines are read, and then the end of the input is met
at most three times, on the way back to the menu. -/

namespace Transcode.Editor

open Text (isBlankLine)

variable {p : Profile} {s : Settings}

/-! ## What is shown holds no questions -/

@[simp] theorem isSilent_menuScreen (s : Settings) (notice : Option String) :
    IsSilent (menuScreen p s notice) := by
  simp only [menuScreen, isSilent_clear_cons, isSilent_map_say]

@[simp] theorem isSilent_choiceLines (q : Parameter) (choices : List Choice) :
    IsSilent (choiceLines q choices) :=
  isSilent_map_say _

theorem isSilent_enter (s : Settings) (i : Fin p.parameters.length) :
    IsSilent (enter s i).shown := by
  rw [enter]
  split
  · simp only [directScreen, isSilent_clear_cons, isSilent_map_say]
  · simp only [choiceScreen, isSilent_clear_cons, isSilent_say_cons, isSilent_choiceLines]
  · simp only [scaleLines, isSilent_clear_cons, isSilent_map_say]

theorem isSilent_answer (state : State p) (answer : Option String) :
    IsSilent (Editor.answer state answer).shown := by
  have hscale : IsSilent scaleLines := isSilent_map_say _
  have hfix : IsSilent evenFixLines := isSilent_map_say _
  rw [Editor.answer]
  split
  · rw [answerMenu]
    repeat' split
    all_goals simp [again, isSilent_enter, hfix]
  · rw [answerDirect]
    repeat' split
    all_goals simp [again, toMenu, store]
  · rw [answerChoice]
    repeat' split
    all_goals simp [again, toMenu, store]
  · rw [answerScaleMenu]
    repeat' split
    all_goals simp [again, toMenu, hscale]
  · rw [answerSize]
    repeat' split
    all_goals simp [again, store, hscale]
  · rw [answerEvenFix]
    repeat' split
    all_goals simp [again, toMenu, store, hfix]

/-! ## Bounds -/

/-- A question is asked about a parameter of its kind, a number given at the menu leads to the entry
with that number, and one given for a choice stores what is found there in the list. -/
structure InBounds (q : Question (State p)) : Prop where
  fits : q.state.place.Fits
  selects : q.state.place = .menu → ∀ next, (answer q.state q.answer).next = .ask next →
    next.place = .menu ∨ ∃ line e, q.answer = some line ∧ next.place.entry? = some e ∧
      choiceIndex? line p.menuSize = some e.index ∧ e.index < p.menuSize
  chooses : ∀ i choices, q.state.place = .choice i choices → ∀ s',
    (answer q.state q.answer).next = .ask ⟨.menu, s'⟩ →
      s' = q.state.settings ∨
      s' = q.state.settings.insert (p.parameters.get i).key .dontChange ∨
      ∃ line j c, q.answer = some line ∧ choiceIndex? line choices.length = some j ∧
        choices[j]? = some c ∧
        s' = q.state.settings.insert (p.parameters.get i).key (.text c.value)

theorem selects_of_fits {q : Question (State p)} (hfits : q.state.place.Fits)
    (hmenu : q.state.place = .menu) {next : State p}
    (h : (answer q.state q.answer).next = .ask next) :
    next.place = .menu ∨ ∃ line e, q.answer = some line ∧ next.place.entry? = some e ∧
      choiceIndex? line p.menuSize = some e.index ∧ e.index < p.menuSize := by
  have hcourse := course_answer hfits q.answer
  generalize answer q.state q.answer = turn at hcourse h
  cases hcourse with
  | ended => cases h
  | back =>
    cases h
    exact .inl rfl
  | onward e entry fits origin =>
    cases h
    rcases origin with hplace | ⟨-, line, hline, hselected⟩
    · rw [hmenu] at hplace
      cases hplace
    · exact .inr ⟨line, e, hline, entry, hselected, choiceIndex?_lt hselected⟩

theorem chooses_of_choice {i : Fin p.parameters.length} {choices : List Choice} {s s' : Settings}
    {answer : Option String} (h : (answerChoice s i choices answer).next = .ask ⟨.menu, s'⟩) :
    s' = s ∨ s' = s.insert (p.parameters.get i).key .dontChange ∨
      ∃ line j c, answer = some line ∧ choiceIndex? line choices.length = some j ∧
        choices[j]? = some c ∧ s' = s.insert (p.parameters.get i).key (.text c.value) := by
  rw [answerChoice] at h
  split at h
  · cases h
    exact .inl rfl
  · rename_i line hline
    split at h
    · cases h
      exact .inr (.inl rfl)
    split at h
    · rename_i j hj
      cases h
      have hlt := choiceIndex?_lt hj
      exact .inr (.inr ⟨line, j, choices[j], eq_some_of_entered? hline, hj, by simp [hlt], rfl⟩)
    · cases h

theorem inBounds_of_fits {q : Question (State p)} (hfits : q.state.place.Fits) : InBounds q where
  fits := hfits
  selects hmenu _ h := selects_of_fits hfits hmenu h
  chooses i choices hplace s' h := by
    obtain ⟨⟨place, s⟩, answer⟩ := q
    obtain rfl : place = .choice i choices := hplace
    exact chooses_of_choice h

/-! ## The end -/

/-- Only the menu ends a session, after a blank line or at the end of the input. -/
theorem menu_of_done {state : State p} (hfits : state.place.Fits) {answer : Option String}
    {r : Settings} (h : (Editor.answer state answer).next = .done r) :
    state = ⟨.menu, r⟩ ∧ entered? answer = none := by
  obtain ⟨place, s⟩ := state
  have hcourse := course_answer hfits answer
  generalize hturn : Editor.answer ⟨place, s⟩ answer = turn at hcourse h
  cases hcourse with
  | onward | back => cases h
  | ended hmenu =>
    obtain rfl : place = .menu := hmenu
    cases h
    refine ⟨rfl, ?_⟩
    -- A line that is not blank is followed by a screen.
    cases hline : entered? answer with
    | none => rfl
    | some line =>
      simp only [Editor.answer, answerMenu, hline] at hturn
      split at hturn
      · cases hturn
      · split at hturn
        · rw [enter] at hturn
          split at hturn <;> cases hturn
        · cases hturn

theorem patience_bounds (state : State p) : 0 < patience state ∧ patience state ≤ 3 := by
  obtain ⟨place, s⟩ := state
  rcases place with _ | _ | _ | ⟨_, _ | _⟩ | _ <;> simp [patience]

/-- A session that has come to its end, told by its questions. It has read some lines of the script, and
the end of the input a number of times. -/
structure Ends (p : Profile) (s : Settings) (script : List String)
    (questions : List (Question (State p))) (read : List String) (unanswered : Nat) : Prop where
  asks : (dialogue p).Asks (start p s) questions (edit p s script).result
  events : (edit p s script).events =
    menuScreen p s none ++ questions.flatMap (dialogue p).events
  script_eq : script = read ++ (edit p s script).unread
  answers : (edit p s script).events.filterMap Event.answer? =
    read.map some ++ List.replicate unanswered none
  answers_le : ((edit p s script).events.filterMap Event.answer?).length ≤ script.length + 3
  unanswered_le : unanswered ≤ 3
  inBounds : ∀ q ∈ questions, InBounds q
  ended : (edit p s script).unread = [] ∨ ∃ line, isBlankLine line = true ∧
    questions.getLast? = some ⟨⟨.menu, (edit p s script).result⟩, some line⟩

theorem Tells.answers_eq {script read : List String} {questions : List (Question (State p))} {n : Nat}
    (ht : Tells p s script questions read n) :
    (edit p s script).events.filterMap Event.answer? = read.map some ++ List.replicate n none := by
  change (menuScreen p s none ++ ((dialogue p).run (start p s) script).events).filterMap _ = _
  have hmenu : (menuScreen p s none).filterMap Event.answer? = [] := isSilent_menuScreen s none
  rw [List.filterMap_append, hmenu, ht.events, ← ht.answers]
  exact Dialogue.filterMap_answer?_events fun q _ => isSilent_answer q.state q.answer

theorem Tells.ended {script read : List String} {questions : List (Question (State p))} {n : Nat}
    (ht : Tells p s script questions read n) (hfits : ∀ q ∈ questions, q.state.place.Fits) :
    (edit p s script).unread = [] ∨ ∃ line, isBlankLine line = true ∧
      questions.getLast? = some ⟨⟨.menu, (edit p s script).result⟩, some line⟩ := by
  by_cases hn : n = 0
  · obtain ⟨⟨state, answer⟩, hlast, hdone⟩ := ht.asks.exists_last
    have hmem := List.mem_of_getLast? hlast
    obtain ⟨rfl, hblank⟩ := menu_of_done (hfits _ hmem) hdone
    -- All questions were answered with lines.
    have hanswer : answer ∈ read.map some := by
      have hmapped := List.mem_map_of_mem (f := (·.answer)) hmem
      rw [ht.answers, hn] at hmapped
      simpa using hmapped
    obtain ⟨line, -, rfl⟩ := List.mem_map.mp hanswer
    refine .inr ⟨line, ?_, hlast⟩
    simpa [entered?, Option.filter] using hblank
  · exact .inl (ht.unread hn)

/-- Every session comes to its end, whatever profile and settings it is about. -/
theorem edit_ends (p : Profile) (s : Settings) (script : List String) :
    ∃ questions read unanswered, Ends p s script questions read unanswered := by
  obtain ⟨questions, read, n, ht⟩ := (dialogue p).exists_tells (start p s) script
  have hfits : ∀ q ∈ questions, q.state.place.Fits := fun q hq =>
    ((Tells.edit_induction (I := fun _ => True) ht (by simp) trivial).1 q hq).1
  have hn : n ≤ 3 := ht.unanswered_le 3 patience_bounds
  have hanswers := Tells.answers_eq ht
  refine ⟨questions, read, n, ht.asks, congrArg (menuScreen p s none ++ ·) ht.events,
    ht.script_eq, hanswers, ?_, hn, fun q hq => inBounds_of_fits (hfits q hq),
    Tells.ended ht hfits⟩
  have hlength := congrArg List.length ht.script_eq
  rw [List.length_append] at hlength
  rw [hanswers, List.length_append, List.length_map, List.length_replicate]
  omega

/-- The end of the input is met three times by a session that waits for the height of a picture. -/
example : (edit Builtin.vp9 Keyed.empty ["3", "1"]).events.filterMap Event.answer? =
    [some "3", some "1", none, none, none] := by
  decide +kernel

end Transcode.Editor
