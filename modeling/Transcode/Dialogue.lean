import Transcode.Text.Blank

/-!
# Dialogues

A dialogue asks for one line at a time. In each state it has a prompt, and an answer, which may be
the end of the input, leads to a next state or to a result, and to what is shown in between. A
dialogue is not held up by the end of the input: every state has a bound on how often it may still
ask then.

A run of a dialogue over the lines of a script is a list of events, from which both the transcript of
the script and the output to a terminal are made.
-/

namespace Transcode

/-- Something that happens between the program and its user. -/
inductive Event where
  /-- The screen is cleared. -/
  | clear
  /-- A line is shown. -/
  | say (line : String)
  /-- A line is asked for; without an answer the input has ended. -/
  | ask (prompt : String) (answer : Option String)
  /-- A value is stored under a key. -/
  | store (key value : String)
deriving DecidableEq

/-- Where an answer leads. -/
inductive Next (σ ρ : Type) where
  | ask (state : σ)
  | done (result : ρ)

/-- What is shown after an answer, and where it leads. -/
structure Turn (σ ρ : Type) where
  shown : List Event
  next : Next σ ρ

/-- A dialogue with states `σ` and results `ρ`. -/
structure Dialogue (σ ρ : Type) where
  prompt : σ → String
  answer : σ → Option String → Turn σ ρ
  /-- A bound on the questions asked after the end of the input. -/
  patience : σ → Nat
  patience_lt : ∀ {s s' : σ}, (answer s none).next = .ask s' → patience s' < patience s

/-- What came of the lines of a script: the events, and where the dialogue stands. -/
structure Progress (σ ρ : Type) where
  events : List Event
  stand : Next σ (ρ × List String)

/-- A finished dialogue: the events, the result, and the lines not asked for. -/
structure Session (ρ : Type) where
  events : List Event
  result : ρ
  unread : List String

namespace Dialogue

variable {σ ρ : Type}

/-- Answers questions with the lines of a script, until the dialogue is over or the lines are. -/
def feed (d : Dialogue σ ρ) (s : σ) : List String → Progress σ ρ
  | [] => ⟨[], .ask s⟩
  | line :: rest =>
    let turn := d.answer s (some line)
    let asked := Event.ask (d.prompt s) (some line) :: turn.shown
    match turn.next with
    | .ask s' => ⟨asked ++ (d.feed s' rest).events, (d.feed s' rest).stand⟩
    | .done r => ⟨asked, .done (r, rest)⟩

/-- Answers questions with the end of the input, until the dialogue is over. -/
def hangUp (d : Dialogue σ ρ) (s : σ) : List Event × ρ :=
  let asked := Event.ask (d.prompt s) none :: (d.answer s none).shown
  match _h : (d.answer s none).next with
  | .ask s' => (asked ++ (d.hangUp s').1, (d.hangUp s').2)
  | .done r => (asked, r)
termination_by d.patience s
decreasing_by all_goals exact d.patience_lt _h

/-- Runs a dialogue over a script, after which the input ends. -/
def run (d : Dialogue σ ρ) (s : σ) (script : List String) : Session ρ :=
  let progress := d.feed s script
  match progress.stand with
  | .done (r, unread) => ⟨progress.events, r, unread⟩
  | .ask s' => ⟨progress.events ++ (d.hangUp s').1, (d.hangUp s').2, []⟩

/-- Feeding two scripts one after the other is feeding the second where the first one led. -/
theorem feed_append (d : Dialogue σ ρ) (s : σ) (first second : List String) :
    d.feed s (first ++ second) =
      match (d.feed s first).stand with
      | .ask s' =>
        ⟨(d.feed s first).events ++ (d.feed s' second).events, (d.feed s' second).stand⟩
      | .done (r, unread) => ⟨(d.feed s first).events, .done (r, unread ++ second)⟩ := by
  induction first generalizing s with
  | nil => simp [feed]
  | cons line rest ih =>
    simp only [List.cons_append, feed]
    cases (d.answer s (some line)).next with
    | done r => rfl
    | ask s' =>
      simp only [ih]
      cases (d.feed s' rest).stand with
      | ask s'' => simp
      | done r => rfl

end Dialogue

/-! ## What is seen of the events -/

namespace Event

/-- What a transcript holds of an event: what is shown, and the answers. -/
def transcript : Event → String
  | clear | store _ _ => ""
  | say line => line ++ "\n"
  | ask prompt answer => prompt ++ answer.getD "" ++ "\n"

/-- What goes to the terminal, where the answers come from somewhere else. -/
def output : Event → String
  | clear | store _ _ => ""
  | say line => line ++ "\n"
  | ask prompt _ => prompt

def isClear : Event → Bool
  | clear => true
  | _ => false

end Event

def transcript (events : List Event) : String :=
  String.join (events.map Event.transcript)

/-- What events put on the terminal. -/
def output (events : List Event) : String :=
  String.join (events.map Event.output)

def clearCount (events : List Event) : Nat :=
  events.countP Event.isClear

end Transcode
