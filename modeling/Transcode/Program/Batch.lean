import Transcode.Batch
import Transcode.CommandLine
import Transcode.Editor.Basic
import Transcode.Profile.Builtin
import Transcode.Program.Clock
import Transcode.Program.Encoder
import Transcode.Validation.Stored

/-!
# The batch run

A batch run settles the profile and its settings, asking the user where it may, and transcodes all
inputs. A dry run shows the commands instead and starts no program.
-/

namespace Transcode

namespace Settings

/-- Settings in which an unset fix for odd picture sizes is the addition of a pixel, where the
encoder needs even ones. -/
def seeded (p : Profile) (s : Settings) : Settings :=
  if p.evenDimensions && (s.get? Key.evenFix).isNone then
    s.insert Key.evenFix (.text EvenFix.pad.value)
  else s

end Settings

/-- A dialogue of one question, the answer to which does not matter. -/
def Dialogue.pause (prompt : String) : Dialogue Unit Unit where
  prompt _ := prompt
  answer _ _ := ⟨[], .done ()⟩
  patience _ := 0
  patience_lt h := by simp at h

/-- What sets the title of the terminal's window. -/
def windowTitle : String := "\x1b]0;ffbatch\x07"

namespace Batch

variable {m : Type → Type} [Monad m]

/-- Turns the fault of an action into a failure. -/
def attempt {ε α : Type} (action : m (Except ε α)) (failure : ε → Failure) : ExceptT Failure m α :=
  ExceptT.mk do return (← action).mapError failure

def selectProfile (host : Host m) (selection : Selection) : ExceptT Failure m Profile := do
  match selection with
  | .settled p => return p
  | .refused fault => throw (.selection fault)
  | .menu notice =>
    for event in notice.toList.map Event.say ++ ProfileMenu.screen Registry.builtin do
      host.present event
    let choice ← attempt (host.converse (ProfileMenu.dialogue Registry.builtin) ()) .terminal
    match Selection.ofChoice choice with
    | .ok p => return p
    | .error fault => throw (.selection fault)

def editSettings (host : Host m) (p : Profile) (s : Settings) : ExceptT Failure m Settings := do
  for event in Editor.menuScreen p s none do
    host.present event
  attempt (host.converse (Editor.dialogue p) (Editor.start p s)) .terminal

/-- Who carries out a batch. A dry run shows every command and runs none. -/
def crew (host : Host m) (dryRun : Bool) : Crew m where
  begin input plan :=
    host.log .info ("Processing " ++ input.display ++ " (" ++ plan.mode.display ++ ", " ++
      Number.natText plan.commands.length ++ " command(s))")
  announce _ c := do
    host.printLine (if dryRun then c.display else "Running: " ++ c.display)
    host.log .debug ("Running: " ++ c.display)
  execute c := if dryRun then pure none else do return c.failure? (← host.execute c)
  giveUp input causes :=
    host.log .error ("Failed to process " ++ input.display ++ ": " ++ causes.message)

/-- The line at the end of a batch. -/
def summary (reports : List Report) (milliseconds : Int) : String :=
  "All done! " ++ Number.natText (succeededCount reports) ++ " succeeded, " ++
    Number.natText (failedCount reports) ++ " failed. Total processing time: " ++
    clockText milliseconds

/-- The settings of a profile, as they are stored or as they are edited now. -/
def settle (host : Host m) (inv : Invocation) (options : Options) (p : Profile) :
    ExceptT Failure m Settings := do
  if (options.stored? p).isNone then
    host.log .debug ("No stored settings for " ++ p.name ++ ", using defaults")
  let stored := (options.settingsFor p).seeded p
  if inv.skipMenu then return stored else editSettings host p stored

/-- Stores settings as the defaults of their profile. -/
def saveDefaults (host : Host m) (file : Path) (options : Options) (p : Profile) (s : Settings) :
    ExceptT Failure m Unit := do
  attempt ((options.store p s).save host file) .storage
  host.printLine ("Saved " ++ p.name ++ " defaults to " ++ file.display)

def findInputs (host : Host m) (paths : List Path) : ExceptT Failure m (List Path) := do
  let inputs ← host.collect paths
  for (directory, count) in inputs.searched do
    host.log .debug
      ("Found " ++ Number.natText count ++ " video files under " ++ directory.display)
  for path in inputs.missing do
    host.printLine ("File not found: " ++ path.display)
  if inputs.files.isEmpty then throw .noVideos
  return inputs.files

def offerDirectory (host : Host m) (directory : Path) : ExceptT Failure m Unit := do
  attempt (host.converse (.pause "Press Enter to open the output folder...") ()) .terminal
  match ← host.openDirectory directory with
  | .ok _ => pure ()
  | .error causes =>
    host.log .warning (Causes.message (("Failed to open " ++ directory.display) :: causes))

/-- Makes sure that there is an encoder. A dry run does without. -/
def meetEncoder (host : Host m) (dryRun : Bool) : ExceptT Failure m Unit := do
  if !dryRun then
    let version ← attempt (encoderVersion host) id
    host.log .info ("Using " ++ version)

/-- What a batch works with once nothing is left to ask for. -/
structure Order where
  config : Config
  profile : Profile
  settings : Settings

/-- Settles what a batch works with, from the configuration and the options of a directory. -/
def prepare (host : Host m) (inv : Invocation) (directory : Path) : ExceptT Failure m Order := do
  let config ← attempt (Config.load host directory) .storage
  let file := Document.options.file directory
  let options ← attempt (Options.load host file Registry.builtin) .storage
  if inv.files.isEmpty && !inv.saveDefaults then throw .noInputs
  meetEncoder host inv.dryRun
  host.print windowTitle
  let requested := inv.codec.or config.profile
  let p ← selectProfile host (.ofRequest Registry.builtin requested inv.skipMenu)
  host.log .info ("Selected profile " ++ p.display)
  let s ← settle host inv options p
  if inv.saveDefaults then saveDefaults host file options p s
  return ⟨config, p, s⟩

/-- The directory for the outputs. -/
def outputDirectory (inv : Invocation) (order : Order) : Path :=
  inv.outputDirectory.getD order.config.outputDirectory

/-- Finds the inputs, once there is a place for the outputs. A dry run needs none. -/
def gather (host : Host m) (inv : Invocation) (order : Order) : ExceptT Failure m (List Path) := do
  for fault in order.profile.storedFaults order.settings do
    host.log .warning fault.message
  let directory := outputDirectory inv order
  if !inv.dryRun then
    attempt (host.createDirectories directory) (.outputDirectory directory)
  findInputs host inv.files

/-- Transcodes the inputs, or shows how. -/
def transcode (host : Host m) (inv : Invocation) (order : Order) (inputs : List Path) :
    ExceptT Failure m Unit := do
  let directory := outputDirectory inv order
  let started ← host.milliseconds
  let reports ← attempt ((crew host inv.dryRun).runBatch
    (fun input => order.profile.plan order.settings input directory) inputs) .plan
  host.printLine (summary reports ((← host.milliseconds) - started))
  if !(inv.noOpen || inv.skipMenu || inv.dryRun) && order.config.openOutputDirectory then
    offerDirectory host directory
  if 0 < failedCount reports then
    throw (.inputsFailed (failedCount reports) reports.length)

/-- A batch run with the configuration and the options of a directory. -/
def run (host : Host m) (inv : Invocation) (directory : Path) : ExceptT Failure m Unit := do
  let order ← prepare host inv directory
  if inv.files.isEmpty then return
  let inputs ← gather host inv order
  transcode host inv order inputs

end Batch

end Transcode
