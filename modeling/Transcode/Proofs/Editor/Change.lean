import Transcode.Editor.Basic
import Transcode.Proofs.Dialogue
import Transcode.Proofs.Keyed
import Transcode.Proofs.Number.Integer

/-! # What the editor changes

An answer changes the settings in one of a few ways, depending on the place where it is given, or not
at all. It leads on with the same entry of the menu, or back to the menu. What all of the changes keep
is kept by a whole session. -/

namespace Transcode.Editor

variable {p : Profile}

/-- A place is for the kind of its parameter, and fixes are for encoders that need even sizes. -/
def Place.Fits : Place p → Prop
  | .menu => True
  | .direct i range => (p.parameters.get i).kind = .direct range
  | .choice i choices => (p.parameters.get i).kind = .choice choices
  | .scale i _ => (p.parameters.get i).kind = .scale
  | .evenFix => p.evenDimensions = true

/-- The entries of the menu. -/
inductive Entry (p : Profile) where
  | parameter (i : Fin p.parameters.length)
  | evenFix
deriving DecidableEq

namespace Entry

/-- The number of entries before this one. -/
def index : Entry p → Nat
  | parameter i => i
  | evenFix => p.parameters.length

/-- A line selects an entry by its number, counted from one. -/
def IsSelectedBy (e : Entry p) (line : String) : Prop :=
  choiceIndex? line p.menuSize = some e.index

end Entry

/-- The entry that the questions at a place are about. -/
def Place.entry? : Place p → Option (Entry p)
  | .menu => none
  | .direct i _ | .choice i _ | .scale i _ => some (.parameter i)
  | .evenFix => some .evenFix

/-- What is stored for a line that is given at a place. -/
inductive Writes : Place p → String → String → Setting → Prop where
  | typed {i : Fin p.parameters.length} {range : Range} {line : String}
      (accepted : checkInput range line = .ok ()) :
      Writes (.direct i range) line (p.parameters.get i).key (.ofInput line)
  | directReset {i : Fin p.parameters.length} {range : Range} {line : String}
      (resettable : (p.parameters.get i).resettable = true) (word : isResetWord line = true) :
      Writes (.direct i range) line (p.parameters.get i).key .dontChange
  | chosen {i : Fin p.parameters.length} {choices : List Choice} {c : Choice} {line : String}
      (mem : c ∈ choices) : Writes (.choice i choices) line (p.parameters.get i).key (.text c.value)
  | choiceReset {i : Fin p.parameters.length} {choices : List Choice} {line : String}
      (resettable : (p.parameters.get i).resettable = true) (word : isResetWord line = true) :
      Writes (.choice i choices) line (p.parameters.get i).key .dontChange
  | sized {i : Fin p.parameters.length} {step : ScaleStep} {size line : String}
      (read : readSize step line = .ok size) : Writes (.scale i step) line Key.scale (.text size)
  | fixed (fix : EvenFix) {line : String} :
      Writes .evenFix line Key.evenFix (.text fix.value)

/-- What may be cleared at a place. -/
inductive Clears : Place p → String → Prop where
  | scale {i : Fin p.parameters.length} : Clears (.scale i .menu) Key.scale
  | evenFix : Clears .evenFix Key.evenFix

/-- What a line can do to settings at a place. -/
inductive Edit (place : Place p) (line : String) (s : Settings) : Settings → Prop where
  | insert {key : String} {v : Setting} (writes : Writes place line key v) :
      Edit place line s (s.insert key v)
  | erase {key : String} (clears : Clears place key) : Edit place line s (s.erase key)

/-- A size is stored in its written form, be it read in full or made of one given side. -/
theorem readSize_eq_ok {step : ScaleStep} {line size : String} (h : readSize step line = .ok size) :
    ∃ r : Resolution, size = r.display ∧ (checkResolution line = .ok r ∨
      ∃ n : Nat, checkDimension line = .ok n ∧ (r = ⟨-1, n⟩ ∨ r = ⟨n, -1⟩)) := by
  have hderived : Number.intText (-1) = "-1" := by decide +kernel
  have hresolution (h : (checkResolution line).map Resolution.display = .ok size) :
      ∃ r : Resolution, size = r.display ∧ checkResolution line = .ok r := by
    cases hr : checkResolution line with
    | error fault => simp [hr, Except.map] at h
    | ok r => exact ⟨r, by simpa [hr, Except.map, eq_comm] using h, rfl⟩
  have hdimension {f : Nat → String} (h : (checkDimension line).map f = .ok size) :
      ∃ n, size = f n ∧ checkDimension line = .ok n := by
    cases hn : checkDimension line with
    | error fault => simp [hn, Except.map] at h
    | ok n => exact ⟨n, by simpa [hn, Except.map, eq_comm] using h, rfl⟩
  cases step with
  | menu =>
    obtain ⟨r, hsize, hr⟩ := hresolution h
    exact ⟨r, hsize, .inl hr⟩
  | size =>
    obtain ⟨r, hsize, hr⟩ := hresolution h
    exact ⟨r, hsize, .inl hr⟩
  | height =>
    simp only [readSize] at h
    obtain ⟨n, hsize, hn⟩ := hdimension h
    refine ⟨⟨-1, n⟩, ?_, .inr ⟨n, hn, .inl rfl⟩⟩
    simp [hsize, Resolution.display, Number.intText_natCast, hderived]
  | width =>
    simp only [readSize] at h
    obtain ⟨n, hsize, hn⟩ := hdimension h
    refine ⟨⟨n, -1⟩, ?_, .inr ⟨n, hn, .inr rfl⟩⟩
    simp [hsize, Resolution.display, Number.intText_natCast, hderived, String.append_assoc]

/-! ## One answer -/

/-- How the editor goes on after an answer at a place with settings. -/
inductive Course (place : Place p) (s : Settings) (answer : Option String) : EditorTurn p → Prop where
  /-- The session is over. -/
  | ended (menu : place = .menu) : Course place s answer ⟨[], .done s⟩
  /-- There is a question about an entry, be it the entry of the place or one that the answer selects
  from the menu. -/
  | onward {next : Place p} {shown : List Event} (e : Entry p) (entry : next.entry? = some e)
      (fits : next.Fits) (origin : place.entry? = some e ∨
        place = .menu ∧ ∃ line, answer = some line ∧ e.IsSelectedBy line) :
      Course place s answer ⟨shown, .ask ⟨next, s⟩⟩
  /-- The menu is shown, with settings that the answer may have edited. -/
  | back {s' : Settings} (reported : List Event) {notice : Option String}
      (edited : s' = s ∨ ∃ line, answer = some line ∧ Edit place line s s') :
      Course place s answer ⟨reported ++ menuScreen p s' notice, .ask ⟨.menu, s'⟩⟩

theorem eq_some_of_entered? {answer : Option String} {line : String}
    (h : entered? answer = some line) : answer = some line :=
  (Option.filter_eq_some_iff.mp h).1

theorem entered?_of_not_blank {line : String} (hline : Text.isBlankLine line = false) :
    entered? (some line) = some line := by
  simp [entered?, Option.filter, hline]

section

variable {place next : Place p} {s s' : Settings} {answer : Option String} {line : String}

theorem Course.kept : Course place s answer (toMenu s) :=
  .back [] (.inl rfl)

theorem Course.again (shown : List Event) (e : Entry p) (entry : next.entry? = some e)
    (fits : next.Fits) (origin : place.entry? = some e) :
    Course place s answer (Editor.again next s shown) :=
  .onward e entry fits (.inl origin)

theorem Course.inserted {key : String} {v : Setting} (hline : entered? answer = some line)
    (hwrites : Writes place line key v) : Course place s answer (toMenu (s.insert key v)) :=
  .back [] (.inr ⟨line, eq_some_of_entered? hline, .insert hwrites⟩)

theorem Course.stored {key : String} {v : Setting} (hline : entered? answer = some line)
    (hwrites : Writes place line key v) : Course place s answer (store s key v) :=
  .back [_] (.inr ⟨line, eq_some_of_entered? hline, .insert hwrites⟩)

theorem Course.erased {key : String} (hline : entered? answer = some line)
    (hclears : Clears place key) : Course place s answer (toMenu (s.erase key)) :=
  .back [] (.inr ⟨line, eq_some_of_entered? hline, .erase hclears⟩)

end

section

variable (s : Settings) (answer : Option String)

theorem course_enter {i : Fin p.parameters.length} {line : String}
    (hselected : (Entry.parameter i).IsSelectedBy line) :
    Course .menu s (some line) (enter s i) := by
  have horigin : Place.menu.entry? = some (Entry.parameter i) ∨
      Place.menu (p := p) = .menu ∧ ∃ l, some line = some l ∧
        (Entry.parameter i).IsSelectedBy l :=
    .inr ⟨rfl, line, rfl, hselected⟩
  rw [enter]
  split
  · exact .onward _ rfl ‹_› horigin
  · exact .onward _ rfl ‹_› horigin
  · exact .onward _ rfl ‹_› horigin

theorem course_answerMenu : Course .menu s answer (answerMenu (p := p) s answer) := by
  rw [answerMenu]
  split
  · exact .ended rfl
  rename_i line hline
  obtain rfl := eq_some_of_entered? hline
  split
  · exact .back [] (.inl rfl)
  · rename_i i hchoice
    split
    · exact course_enter s hchoice
    · rename_i hlast
      -- The menu goes on after the parameters only for encoders that need even sizes.
      have hmenu := choiceIndex?_lt hchoice
      rw [Profile.menuSize] at hmenu
      split at hmenu
      · rename_i heven
        obtain rfl : i = (Entry.evenFix (p := p)).index := by
          rw [Entry.index]
          omega
        exact .onward .evenFix rfl heven (.inr ⟨rfl, line, rfl, hchoice⟩)
      · exact absurd hmenu hlast

theorem course_answerDirect {i : Fin p.parameters.length} {range : Range}
    (hfits : (Place.direct i range).Fits) :
    Course (.direct i range) s answer (answerDirect s i range answer) := by
  rw [answerDirect]
  split
  · exact .kept
  · rename_i line hline
    split
    · rename_i hreset
      rw [Bool.and_eq_true] at hreset
      exact .inserted hline (.directReset hreset.1 hreset.2)
    split
    · rename_i haccepted
      exact .stored hline (.typed haccepted)
    · exact .again _ _ rfl hfits rfl

theorem course_answerChoice {i : Fin p.parameters.length} {choices : List Choice}
    (hfits : (Place.choice i choices).Fits) :
    Course (.choice i choices) s answer (answerChoice s i choices answer) := by
  rw [answerChoice]
  split
  · exact .kept
  · rename_i line hline
    split
    · rename_i hreset
      rw [Bool.and_eq_true] at hreset
      exact .inserted hline (.choiceReset hreset.1 hreset.2)
    split
    · exact .stored hline (.chosen (List.get_mem _ _))
    · exact .again _ _ rfl hfits rfl

theorem course_answerScaleMenu {i : Fin p.parameters.length} (hfits : (Place.scale i .menu).Fits) :
    Course (.scale i .menu) s answer (answerScaleMenu s i answer) := by
  have hstep (step : ScaleStep) : (Place.scale i step).Fits := hfits
  rw [answerScaleMenu]
  split
  · exact .kept
  · rename_i line hline
    split
    · exact .again _ _ rfl (hstep .height) rfl
    split
    · exact .again _ _ rfl (hstep .width) rfl
    split
    · exact .again _ _ rfl (hstep .size) rfl
    split
    · exact .erased hline .scale
    · exact .again _ _ rfl hfits rfl

theorem course_answerSize {i : Fin p.parameters.length} {step : ScaleStep}
    (hfits : (Place.scale i step).Fits) :
    Course (.scale i step) s answer (answerSize s i step answer) := by
  rw [answerSize]
  split
  · exact .again _ _ rfl hfits rfl
  · rename_i line hline
    split
    · exact .stored hline (.sized ‹_›)
    · exact .again _ _ rfl hfits rfl

theorem course_answerEvenFix (hfits : (Place.evenFix (p := p)).Fits) :
    Course .evenFix s answer (answerEvenFix (p := p) s answer) := by
  rw [answerEvenFix]
  split
  · exact .kept
  · rename_i line hline
    split
    · exact .stored hline (.fixed .pad)
    split
    · exact .stored hline (.fixed .crop)
    split
    · exact .erased hline .evenFix
    · exact .again _ _ rfl hfits rfl

end

theorem course_answer {state : State p} (hfits : state.place.Fits) (answer : Option String) :
    Course state.place state.settings answer (Editor.answer state answer) := by
  obtain ⟨place, s⟩ := state
  cases place with
  | menu => exact course_answerMenu s answer
  | direct i range => exact course_answerDirect s answer hfits
  | choice i choices => exact course_answerChoice s answer hfits
  | evenFix => exact course_answerEvenFix s answer hfits
  | scale i step =>
    cases step with
    | menu => exact course_answerScaleMenu s answer hfits
    | height => exact course_answerSize s answer hfits
    | width => exact course_answerSize s answer hfits
    | size => exact course_answerSize s answer hfits

/-- Where an answer leads from a place with settings: to a place that fits, with the settings as they
were or edited by the answer. -/
def Follows (place : Place p) (s : Settings) (answer : Option String) (next : State p) : Prop :=
  next.place.Fits ∧ (next.settings = s ∨ ∃ line ∈ answer, Edit place line s next.settings)

/-- Every answer leads to a place that fits, and edits the settings as the place it is given at
allows, if at all. The session ends with the settings as they are. -/
theorem answer_next {state : State p} (hfits : state.place.Fits) (answer : Option String) :
    (Editor.answer state answer).next.Holds (Follows state.place state.settings answer)
      (· = state.settings) := by
  have hcourse := course_answer hfits answer
  generalize Editor.answer state answer = turn at hcourse
  cases hcourse with
  | ended => rfl
  | onward e entry fits origin => exact ⟨fits, .inl rfl⟩
  | back reported edited => exact ⟨trivial, edited⟩

/-! ## A session -/

/-- Wherever a session stands, it is at a place that fits. -/
theorem fits_of_stand {s : Settings} {script : List String} {state : State p}
    (h : ((dialogue p).feed (start p s) script).stand = .ask state) : state.place.Fits := by
  have hstep (state : State p) (line : String) (hfits : state.place.Fits) :
      ((dialogue p).answer state (some line)).next.Holds (·.place.Fits) fun _ => True :=
    (answer_next hfits (some line)).mono (fun _ hfollows => hfollows.1) fun _ _ => trivial
  have hstand := Dialogue.holds_stand_feed hstep (s := start p s) trivial script
  rw [h] at hstand
  exact hstand

/-- A session, told by its questions. -/
abbrev Tells (p : Profile) (s : Settings) (script : List String)
    (questions : List (Question (State p))) (read : List String) (unanswered : Nat) : Prop :=
  (dialogue p).Tells (start p s) script questions read unanswered

/-- What no edit by a line that is read destroys is kept by a session. -/
theorem Tells.edit_induction {I : Settings → Prop} {s : Settings} {script read : List String}
    {questions : List (Question (State p))} {n : Nat} (ht : Tells p s script questions read n)
    (hedit : ∀ (place : Place p) (line : String) (s s' : Settings), place.Fits → line ∈ read →
      Edit place line s s' → I s → I s') (hs : I s) :
    (∀ q ∈ questions, q.state.place.Fits ∧ I q.state.settings) ∧ I (edit p s script).result := by
  -- What an answer may store depends on the place, so that the place has to fit is carried along.
  apply Dialogue.Tells.induction (I := fun state => state.place.Fits ∧ I state.settings) ht
  · rintro answer hanswer state ⟨hfits, hI⟩
    apply (answer_next hfits answer).mono
    · rintro next ⟨hfits', hsame | ⟨line, hline, hchange⟩⟩
      · exact ⟨hfits', by rwa [hsame]⟩
      · exact ⟨hfits', hedit _ line _ _ hfits (hanswer line hline) hchange hI⟩
    · rintro _ rfl
      exact hI
  · exact ⟨trivial, hs⟩

/-- What no edit by a line of the script destroys is kept by a session. -/
theorem edit_induction {I : Settings → Prop} {s : Settings} {script : List String}
    (hedit : ∀ (place : Place p) (line : String) (s s' : Settings), place.Fits → line ∈ script →
      Edit place line s s' → I s → I s') (hs : I s) : I (edit p s script).result := by
  obtain ⟨questions, read, n, ht⟩ := (dialogue p).exists_tells (start p s) script
  refine (Tells.edit_induction ht (fun place line s s' hfits hline => ?_) hs).2
  apply hedit place line s s' hfits
  rw [ht.script_eq]
  exact List.mem_append_left _ hline

/-- What holds of the values at the start and of everything that the lines of a script store holds of
the values in the end. -/
theorem edit_all {P : String → Setting → Prop} {s : Settings} {script : List String}
    (hwrites : ∀ (place : Place p) (line key : String) (v : Setting), place.Fits → line ∈ script →
      Writes place line key v → P key v) (hs : s.All P) : (edit p s script).result.All P := by
  apply edit_induction _ hs
  intro place line s s' hfits hline hedit h
  cases hedit with
  | insert hw => exact h.insert (hwrites place line _ _ hfits hline hw)
  | erase hc => exact h.erase _

end Transcode.Editor
