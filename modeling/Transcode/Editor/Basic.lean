import Transcode.Editor.Screen
import Transcode.Validation.Input

/-!
# The editor of settings

The editor is a dialogue. Its menu lists the parameters of a profile with their values; choosing one
leads to the questions for its kind, and from there back to the menu. A blank line leaves a question
without changing anything and ends the dialogue at the menu. A line that is refused is reported, and
the question is asked again.
-/

namespace Transcode.Editor

open Text (trim isBlankLine)

/-- The questions about a picture size. -/
inductive ScaleStep where
  | menu
  | height
  | width
  | size
deriving DecidableEq

/-- Where the editor stands. A parameter is given by its place in the profile. -/
inductive Place (p : Profile) where
  | menu
  | direct (i : Fin p.parameters.length) (range : Range)
  | choice (i : Fin p.parameters.length) (choices : List Choice)
  | scale (i : Fin p.parameters.length) (step : ScaleStep)
  | evenFix
deriving DecidableEq

/-- Where the editor stands and what it has made of the settings. -/
structure State (p : Profile) where
  place : Place p
  settings : Settings

/-- A turn of the editor of a profile, which ends with settings. -/
abbrev EditorTurn (p : Profile) := Turn (State p) Settings

/-- The words that leave a parameter alone. -/
def isResetWord (line : String) : Bool :=
  Text.sameFolded (trim line) "r" || Text.sameFolded (trim line) "reset"

/-- An answer that holds something. -/
def entered? (answer : Option String) : Option String :=
  answer.filter fun line => !isBlankLine line

variable {p : Profile}

def toMenu (s : Settings) : EditorTurn p :=
  ⟨menuScreen p s none, .ask ⟨.menu, s⟩⟩

def store (s : Settings) (key : String) (v : Setting) : EditorTurn p :=
  ⟨.store key v.display :: menuScreen p (s.insert key v) none, .ask ⟨.menu, s.insert key v⟩⟩

def again (place : Place p) (s : Settings) (shown : List Event) : EditorTurn p :=
  ⟨shown, .ask ⟨place, s⟩⟩

/-- Comes to the questions about a parameter. -/
def enter (s : Settings) (i : Fin p.parameters.length) : EditorTurn p :=
  let q := p.parameters[i]
  match q.kind with
  | .direct range => ⟨directScreen q range, .ask ⟨.direct i range, s⟩⟩
  | .choice choices => ⟨choiceScreen q choices, .ask ⟨.choice i choices, s⟩⟩
  | .scale => ⟨.clear :: scaleLines, .ask ⟨.scale i .menu, s⟩⟩

def answerMenu (s : Settings) (answer : Option String) : EditorTurn p :=
  match entered? answer with
  | none => ⟨[], .done s⟩
  | some line =>
    match choiceIndex? line p.menuSize with
    | none =>
      again .menu s (menuScreen p s (some (InputFault.invalidChoice line p.menuSize).message))
    | some i =>
      if h : i < p.parameters.length then enter s ⟨i, h⟩
      else ⟨.clear :: evenFixLines, .ask ⟨.evenFix, s⟩⟩

def answerDirect (s : Settings) (i : Fin p.parameters.length) (range : Range)
    (answer : Option String) : EditorTurn p :=
  let q := p.parameters[i]
  match entered? answer with
  | none => toMenu s
  | some line =>
    if q.resettable && isResetWord line then toMenu (s.insert q.key .dontChange)
    else match checkInput range line with
      | .ok _ => store s q.key (.ofInput line)
      | .error fault => again (.direct i range) s [.say fault.message]

def answerChoice (s : Settings) (i : Fin p.parameters.length) (choices : List Choice)
    (answer : Option String) : EditorTurn p :=
  let q := p.parameters[i]
  match entered? answer with
  | none => toMenu s
  | some line =>
    if q.resettable && isResetWord line then toMenu (s.insert q.key .dontChange)
    else match h : choiceIndex? line choices.length with
      | some j => store s q.key (.text (choices.get ⟨j, choiceIndex?_lt h⟩).value)
      | none => again (.choice i choices) s (.say tryAgain :: choiceLines q choices)

/-- An answer where a way to give a picture size is chosen. -/
def answerScaleMenu (s : Settings) (i : Fin p.parameters.length) (answer : Option String) :
    EditorTurn p :=
  match entered? answer with
  | none => toMenu s
  | some line =>
    if trim line = "1" then again (.scale i .height) s []
    else if trim line = "2" then again (.scale i .width) s []
    else if trim line = "3" then again (.scale i .size) s []
    else if trim line = "4" || isResetWord line then toMenu (s.erase Key.scale)
    else again (.scale i .menu) s (.say tryAgain :: scaleLines)

def readSize (step : ScaleStep) (line : String) : Except InputFault String :=
  match step with
  | .height => (checkDimension line).map fun h => "-1:" ++ Number.natText h
  | .width => (checkDimension line).map fun w => Number.natText w ++ ":-1"
  | .menu | .size => (checkResolution line).map Resolution.display

def answerSize (s : Settings) (i : Fin p.parameters.length) (step : ScaleStep)
    (answer : Option String) : EditorTurn p :=
  match entered? answer with
  | none => again (.scale i .menu) s scaleLines
  | some line =>
    match readSize step line with
    | .ok size => store s Key.scale (.text size)
    | .error fault => again (.scale i step) s [.say fault.message]

/-- An answer where a fix for odd picture sizes is chosen. -/
def answerEvenFix (s : Settings) (answer : Option String) : EditorTurn p :=
  match entered? answer with
  | none => toMenu s
  | some line =>
    if trim line = "1" then store s Key.evenFix (.text EvenFix.pad.value)
    else if trim line = "2" then store s Key.evenFix (.text EvenFix.crop.value)
    else if trim line = "3" then toMenu (s.erase Key.evenFix)
    else again .evenFix s (.say tryAgain :: evenFixLines)

def answer (state : State p) (line : Option String) : EditorTurn p :=
  match state.place with
  | .menu => answerMenu state.settings line
  | .direct i range => answerDirect state.settings i range line
  | .choice i choices => answerChoice state.settings i choices line
  | .scale i .menu => answerScaleMenu state.settings i line
  | .scale i step => answerSize state.settings i step line
  | .evenFix => answerEvenFix state.settings line

def prompt (state : State p) : String :=
  match state.place with
  | .scale _ .height => "Enter height value (Width adjusts automatically): "
  | .scale _ .width => "Enter width value (Height adjusts automatically): "
  | .scale _ .size => "Enter resolution (W:H): "
  | _ => promptMark

/-- How many questions are left at a place when the input has ended. -/
def patience (state : State p) : Nat :=
  match state.place with
  | .menu => 1
  | .direct _ _ | .choice _ _ | .evenFix | .scale _ .menu => 2
  | .scale _ _ => 3

theorem patience_lt {s s' : State p} (h : (answer s none).next = .ask s') :
    patience s' < patience s := by
  obtain ⟨place, settings⟩ := s
  rcases place with _ | _ | _ | ⟨_, _ | _⟩ | _ <;>
    simp only [answer, answerMenu, answerDirect, answerChoice, answerScaleMenu, answerSize,
      answerEvenFix, entered?, Option.filter_none, toMenu, again, Next.ask.injEq,
      reduceCtorEq] at h <;>
    subst h <;> simp [patience]

def dialogue (p : Profile) : Dialogue (State p) Settings where
  prompt := prompt
  answer := answer
  patience := patience
  patience_lt := patience_lt

/-- The editor at its menu, before the first question. -/
def start (p : Profile) (s : Settings) : State p := ⟨.menu, s⟩

/-- Edits settings with the lines of a script, which are followed by the end of the input. -/
def edit (p : Profile) (s : Settings) (script : List String) : Session Settings :=
  let session := (dialogue p).run (start p s) script
  { session with events := menuScreen p s none ++ session.events }

end Transcode.Editor
