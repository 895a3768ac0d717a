import Transcode.Program.Basic

/-!
# The command

The program on the machine itself. Files, the terminal and the clock are those of the machine. Other
programs are not started from here, and directories are not listed: a dry run shows the commands for
the files it is given, and whatever needs the encoder fails as if the encoder were missing.
-/

namespace Transcode.Terminal

/-- What an error of the machine comes to. -/
def faultOf : IO.Error → SystemFault
  | .alreadyExists .. => .alreadyThere
  | .inappropriateType .. => .isDirectory
  | .invalidArgument .. => .zeroByte
  | _ => .notFound

/-- Turns the errors of an action into faults. -/
def guarded {α : Type} (action : IO α) : IO (Except SystemFault α) :=
  tryCatch (Except.ok <$> action) fun e => return .error (faultOf e)

/-- Writes to the log what is not left out of it. -/
def log (verbosity : Nat) (level : LogLevel) (message : String) : IO Unit :=
  if level.threshold ≤ verbosity then IO.eprintln (level.line message) else pure ()

/-- Shows an event. Only a terminal is cleared. -/
def present (verbosity : Nat) : Event → IO Unit
  | .clear => do
    if ← (← IO.getStdout).isTty then IO.print "\x1b[2J\x1b[1;1H"
  | .say line => IO.println line
  | .ask prompt _ => do
    IO.print prompt
    (← IO.getStdout).flush
  | .store key value => log verbosity .debug ("Setting '" ++ key ++ "' = " ++ value)

/-- The next line of the standard input, without its end. -/
def readLine : IO (Except SystemFault (Option String)) := do
  match ← guarded (do (← IO.getStdin).getLine) with
  | .error _ => return .error .illFormedText
  | .ok line =>
    if line.isEmpty then return .ok none
    else
      let isEnd (c : Char) : Bool := c == '\r' || c == '\n'
      return .ok (some (String.ofList (line.toList.reverse.dropWhile isEnd).reverse))

partial def converse {σ ρ : Type} (verbosity : Nat) (d : Dialogue σ ρ) (s : σ) :
    IO (Except SystemFault ρ) := do
  present verbosity (.ask (d.prompt s) none)
  match ← readLine with
  | .error fault => return .error fault
  | .ok line =>
    let turn := d.answer s line
    for event in turn.shown do
      present verbosity event
    match turn.next with
    | .ask s' => converse verbosity d s'
    | .done r => return .ok r

def configHome : IO (Option Path) := do
  match ← IO.getEnv "XDG_CONFIG_HOME" with
  | some directory =>
    if (Path.ofString directory).isAbsolute then return some (.ofString directory)
  | none => pure ()
  return (← IO.getEnv "HOME").map fun home => (Path.ofString home).join (.ofString ".config")

/-- Whether a path can be opened. -/
def holds (p : Path) : IO Bool :=
  return (← guarded (IO.FS.Handle.mk p.display .read)).toOption.isSome

/-- Whether a path leads to a directory, which can be opened and not read. -/
def isDirectory (p : Path) : IO Bool := do
  let first ← guarded do (← IO.FS.Handle.mk p.display .read).read 1
  return (← holds p) && first.toOption.isNone

/-- The files among paths; directories count as empty. -/
def collect : List Path → IO Inputs
  | [] => return ⟨[], [], []⟩
  | p :: rest => do
    let inputs ← collect rest
    if ← isDirectory p then return { inputs with searched := (p, 0) :: inputs.searched }
    else if ← holds p then return { inputs with files := p :: inputs.files }
    else return { inputs with missing := p :: inputs.missing }

def host (verbosity : Nat) : Host IO where
  print text := IO.print text
  complain line := IO.eprintln line
  log := log verbosity
  present := present verbosity
  converse := converse verbosity
  configHome := configHome
  holds := holds
  readText p := guarded (IO.FS.readFile p.display)
  writeText p s := guarded (IO.FS.writeFile p.display s)
  createDirectories p := guarded (IO.FS.createDirAll p.display)
  collect := collect
  execute _ := return .error .notFound
  capture _ := return .error .notFound
  openDirectory _ := return .error [SystemFault.notFound.message]
  milliseconds := return (← IO.monoMsNow : Nat)

def usage : String :=
  "Usage: ffbatch [OPTIONS] [FILES]... [COMMAND]\n\n" ++
  "Commands: check-ffmpeg, list-profiles, init-config, help\n" ++
  "Options: " ++ ", ".intercalate (CommandLine.Level.batch.options.map fun o => "--" ++ o.long)

end Transcode.Terminal

def main (words : List String) : IO UInt32 := do
  match Transcode.CommandLine.read words with
  | .ok inv => return (← Transcode.Program.run (Transcode.Terminal.host inv.verbosity) inv).toUInt32
  | .error .helpWanted =>
    IO.println Transcode.Terminal.usage
    return 0
  | .error _ =>
    IO.eprintln Transcode.Terminal.usage
    return 2
