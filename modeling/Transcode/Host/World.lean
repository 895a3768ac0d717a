import Transcode.Host.Basic
import Transcode.Text.Split

/-!
# Worlds

A world is a machine as a value: a file tree, the lines that wait on the standard input, the programs
that can be started, and everything that has been seen from outside so far. What the program does on a
world is a function of the world, so two runs can be compared.
-/

namespace Transcode

open Text (Bytes)

/-- What a program does: how it ends, what it puts out, and the files it leaves. -/
structure Response where
  status : ExitStatus
  output : Bytes
  tree : FileTree

/-- A program, which may answer differently each time it is run: it is given the number of runs
before, its arguments and the files. -/
abbrev Executable := Nat → List Bytes → FileTree → Response

/-- Something that is seen from outside. -/
inductive Happening where
  | printed (text : String)
  | complained (line : String)
  | logged (level : LogLevel) (message : String)
  | executed (c : Command)
  | captured (c : Command)
  | opened (directory : Path)
deriving DecidableEq

/-- A machine as a value. -/
structure World where
  tree : FileTree
  configHome : Option Path
  input : List Bytes
  programs : Bytes → Option Executable
  verbosity : Nat
  happenings : List Happening

namespace World

/-! ## What is seen -/

def see (w : World) (h : Happening) : World :=
  { w with happenings := w.happenings ++ [h] }

/-- Adds to the log what is not left out of it. -/
def note (w : World) (level : LogLevel) (message : String) : World :=
  if level.threshold ≤ w.verbosity then w.see (.logged level message) else w

/-- Shows an event. The screen is not cleared, since the output is not a terminal. -/
def present (w : World) : Event → World
  | .clear => w
  | .say line => w.see (.printed (line ++ "\n"))
  | .ask prompt _ => w.see (.printed prompt)
  | .store key value => w.note .debug ("Setting '" ++ key ++ "' = " ++ value)

def output (w : World) : String :=
  String.join (w.happenings.filterMap fun h =>
    match h with
    | .printed text => some text
    | _ => none)

def errors (w : World) : String :=
  String.join (w.happenings.filterMap fun h =>
    match h with
    | .complained line => some (line ++ "\n")
    | .logged level message => some (level.line message ++ "\n")
    | _ => none)

def executed (w : World) : List Command :=
  w.happenings.filterMap fun h =>
    match h with
    | .executed c => some c
    | _ => none

/-! ## Reading lines -/

/-- The text of a line, without the carriage returns at its end. -/
def lineText? (line : Bytes) : Option String :=
  (Text.Utf8.text? line).map fun s =>
    String.ofList (s.toList.reverse.dropWhile (· == '\r')).reverse

/-- Carries on a dialogue with the lines that wait. It breaks off at a line that is no text. -/
def converse {σ ρ : Type} (d : Dialogue σ ρ) (s : σ) (w : World) : Except SystemFault ρ × World :=
  let script := (w.input.map lineText?).takeWhile Option.isSome |>.filterMap id
  let progress := d.feed s script
  match progress.stand with
  | .done (r, unread) =>
    (.ok r, progress.events.foldl present
      { w with input := w.input.drop (script.length - unread.length) })
  | .ask s' =>
    match w.input.drop script.length with
    | [] =>
      (.ok (d.hangUp s').2, (progress.events ++ (d.hangUp s').1).foldl present { w with input := [] })
    | _ :: rest =>
      (.error .illFormedText,
        (progress.events ++ [Event.ask (d.prompt s') none]).foldl present { w with input := rest })

/-! ## Files and programs -/

/-- Replaces the files by what a change of them has left. -/
def change (w : World) (left : Except SystemFault Unit × FileTree) :
    Except SystemFault Unit × World :=
  (left.1, { w with tree := left.2 })

/-- Starts a program, unless an argument cannot be passed to it. -/
def start (w : World) (c : Command) : Except SystemFault Response :=
  if c.values.any fun v => v.contains 0 then .error .zeroByteArgument
  else match w.programs c.program with
    | some program => .ok (program w.executed.length c.values w.tree)
    | none => .error .notFound

def execute (w : World) (c : Command) : Launch × World :=
  match w.start c with
  | .ok r => (.ok r.status, { w.see (.executed c) with tree := r.tree })
  | .error fault => (.error fault, w)

def capture (w : World) (c : Command) : Except SystemFault (ExitStatus × Bytes) × World :=
  match w.start c with
  | .ok r => (.ok (r.status, r.output), { w.see (.captured c) with tree := r.tree })
  | .error fault => (.error fault, w)

/-- The host on which the program changes a world. Directories can always be opened, and no time
passes. -/
def host : Host (StateM World) where
  print text := modify (·.see (.printed text))
  complain line := modify (·.see (.complained line))
  log level message := modify (·.note level message)
  present event := modify (·.present event)
  converse d s := modifyGet (converse d s)
  configHome := return (← get).configHome
  holds p := return (← get).tree.holds p
  readText p := return (← get).tree.readText p
  writeText p s := modifyGet fun w => w.change (w.tree.after (w.tree.write p (Text.Utf8.encode s)))
  createDirectories p := modifyGet fun w => w.change (w.tree.createDirectories p)
  collect paths := return (← get).tree.collect paths
  execute c := modifyGet (·.execute c)
  capture c := modifyGet (·.capture c)
  openDirectory p := do
    modify (·.see (.opened p))
    return .ok ()
  milliseconds := return 0

end World

end Transcode
