import Transcode.Program.Batch

/-!
# The program

What the program does for a command line: a batch run, or one of the subcommands, of which only the
one for the configuration touches any file.
-/

namespace Transcode.Program

variable {m : Type → Type} [Monad m]

/-- Shows the version of the encoder. -/
def checkEncoder (host : Host m) : ExceptT Failure m Unit := do
  let version ← Batch.attempt (encoderVersion host) id
  host.printLine ("ffmpeg found: " ++ version)

/-- Shows the profiles with the keys of their parameters. -/
def listProfiles (host : Host m) : m Unit := do
  for p in Registry.builtin.profiles do
    host.printLine p.display
    host.printLine ("  " ++ ", ".intercalate (p.parameters.map (·.key)))

/-- Shows the configuration, and writes the default options if there are none or if that is wanted
anyway. -/
def initConfig (host : Host m) (directory : Path) (force : Bool) : ExceptT Failure m Unit := do
  let config ← Batch.attempt (Config.load host directory) .storage
  host.printLine ("Config: " ++ (Document.config.file directory).display)
  host.printLine config.describe
  let file := Document.options.file directory
  if force || !(← host.holds file) then
    Batch.attempt ((Options.defaults Registry.builtin).save host file) .storage
    host.printLine ("Default options written to " ++ file.display)
  else
    host.printLine ("Options: " ++ file.display)

/-- The directory of the configuration: the one asked for, or the program's own one among those of
the user's programs. -/
def configDirectory (requested configHome : Option Path) : Except Failure Path :=
  match requested, configHome with
  | some directory, _ => .ok directory
  | none, some home => .ok (home.join (.ofString "ffbatch"))
  | none, none => .error .noConfigHome

def perform (host : Host m) (inv : Invocation) : ExceptT Failure m Unit := do
  let directory ← configDirectory inv.configDirectory (← host.configHome)
  match inv.subcommand with
  | some .checkEncoder => checkEncoder host
  | some .listProfiles => ExceptT.lift (listProfiles host)
  | some (.initConfig force) => initConfig host directory force
  | none => Batch.run host inv directory

/-- Does what a command line asks for, and answers the exit code. -/
def run (host : Host m) (inv : Invocation) : m Nat := do
  match ← (perform host inv).run with
  | .ok _ => return 0
  | .error failure =>
    host.complain failure.line
    return 1

end Transcode.Program
