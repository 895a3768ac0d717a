import Transcode.Path.Basic

/-!
# The command line

Words are options, values of options, names of subcommands or files. A value or a file is not looked
at before the next option, or the end of the words, shows that it is complete, so a fault of a later
word may come before its own. After `--` every word is a file.
-/

namespace Transcode

/-- Why a command line starts nothing. -/
inductive UsageFault where
  | helpWanted
  | unknownArgument
  | unknownSubcommand
  | missingValue
  | repeatedOption
  | unwantedValue
deriving DecidableEq

/-- What the program does other than transcoding. -/
inductive Subcommand where
  | checkEncoder
  | listProfiles
  | initConfig (force : Bool)
deriving DecidableEq

/-- What a command line asks for. -/
structure Invocation where
  files : List Path
  subcommand : Option Subcommand
  codec : Option String
  outputDirectory : Option Path
  configDirectory : Option Path
  skipMenu : Bool
  dryRun : Bool
  saveDefaults : Bool
  noOpen : Bool
  verbosity : Nat
deriving DecidableEq

namespace CommandLine

/-! ## Options -/

/-- An option. -/
inductive Opt where
  | codec
  | outputDirectory
  | configDirectory
  | skipMenu
  | dryRun
  | saveDefaults
  | noOpen
  | force
  | verbose
  | help
deriving DecidableEq

namespace Opt

def long : Opt → String
  | codec => "codec"
  | outputDirectory => "output-dir"
  | configDirectory => "config-dir"
  | skipMenu => "skip-menu"
  | dryRun => "dry-run"
  | saveDefaults => "save-defaults"
  | noOpen => "no-open"
  | force => "force"
  | verbose => "verbose"
  | help => "help"

def letter? : Opt → Option Char
  | verbose => some 'v'
  | help => some 'h'
  | _ => none

def takesValue : Opt → Bool
  | codec | outputDirectory | configDirectory => true
  | _ => false

/-- Whether the value of an option may be the empty word. -/
def allowsEmpty : Opt → Bool
  | codec => true
  | _ => false

end Opt

/-- What the words are read for: a batch, or a subcommand. -/
inductive Level where
  | batch
  | checkEncoder
  | listProfiles
  | initConfig
deriving DecidableEq

namespace Level

def options : Level → List Opt
  | batch =>
    [.codec, .skipMenu, .outputDirectory, .dryRun, .saveDefaults, .noOpen, .configDirectory,
      .verbose, .help]
  | checkEncoder | listProfiles => [.configDirectory, .verbose, .help]
  | initConfig => [.force, .configDirectory, .verbose, .help]

/-- The level of a subcommand's name. -/
def ofName? : String → Option Level
  | "check-ffmpeg" => some checkEncoder
  | "list-profiles" => some listProfiles
  | "init-config" => some initConfig
  | _ => none

end Level

/-- The name before which no subcommand is needed to get help. -/
def helpName : String := "help"

/-- The fault for words after the name of help, which may name one subcommand. -/
def helpFault : List String → UsageFault
  | [] => .helpWanted
  | [name] =>
    if name = helpName || (Level.ofName? name).isSome then .helpWanted else .unknownSubcommand
  | _ => .unknownSubcommand

/-! ## What is given on a level -/

/-- Files, options with values, and other options as often as they were given. -/
structure Given where
  files : List String := []
  values : List (Opt × String) := []
  flags : List Opt := []

namespace Given

def value? (g : Given) (o : Opt) : Option String :=
  (g.values.find? fun v => v.1 == o).map (·.2)

def addValue (g : Given) (o : Opt) (value : String) : Except UsageFault Given :=
  if (g.value? o).isSome then .error .repeatedOption
  else if value.isEmpty && !o.allowsEmpty then .error .missingValue
  else .ok { g with values := g.values ++ [(o, value)] }

/-- Gives an option without a value. Only the one for more output may be repeated. -/
def addFlag (g : Given) (o : Opt) : Except UsageFault Given :=
  if o = .help then .error .helpWanted
  else if o ≠ .verbose && g.flags.contains o then .error .repeatedOption
  else .ok { g with flags := g.flags ++ [o] }

def addFiles (g : Given) (words : List String) : Except UsageFault Given :=
  if words.any String.isEmpty then .error .missingValue
  else .ok { g with files := g.files ++ words }

end Given

/-! ## Reading words -/

/-- What may still be continued by the next word. -/
inductive Pending where
  | nothing
  | files (words : List String)
  | option (o : Opt) (value : Option String)

/-- Where the reading of a level stands. -/
structure Reading where
  given : Given := {}
  pending : Pending := .nothing
  onlyFiles : Bool := false

namespace Reading

/-- Completes what is pending. -/
def settle (r : Reading) : Except UsageFault Given :=
  match r.pending with
  | .nothing => .ok r.given
  | .files words => r.given.addFiles words
  | .option _ none => .error .missingValue
  | .option o (some value) => r.given.addValue o value

/-- Goes on with nothing pending. -/
def resume (r : Reading) (given : Except UsageFault Given) : Except UsageFault Reading :=
  given.map fun g => { r with given := g, pending := .nothing }

/-- An option without a value. -/
def takeFlag (r : Reading) (o : Opt) : Except UsageFault Reading :=
  r.resume (r.settle.bind fun g => g.addFlag o)

/-- An option by its name, with what follows an equals sign. -/
def takeLong (r : Reading) (level : Level) (name : String) (value : Option String) :
    Except UsageFault Reading :=
  match level.options.find? fun o => o.long == name with
  | none => .error .unknownArgument
  | some o =>
    match o.takesValue, value with
    | true, some value => r.resume (r.settle.bind fun g => g.addValue o value)
    | true, none => r.settle.map fun g => { r with given := g, pending := .option o none }
    | false, some _ => .error .unwantedValue
    | false, none => r.takeFlag o

def takeLetters (r : Reading) (level : Level) : List Char → Except UsageFault Reading
  | [] => .ok r
  | c :: cs =>
    match level.options.find? fun o => o.letter? == some c with
    | none => .error .unknownArgument
    | some o => (r.takeFlag o).bind fun r => r.takeLetters level cs

/-- A word that is no option: the value of an option that waits for one, or a file. -/
def takePlain (r : Reading) (level : Level) (word : String) : Except UsageFault Reading :=
  match r.pending, r.onlyFiles with
  | .option o none, false => .ok { r with pending := .option o (some word) }
  | .files words, _ => .ok { r with pending := .files (words ++ [word]) }
  | _, _ =>
    if level = .batch then r.settle.map fun g => { r with given := g, pending := .files [word] }
    else .error .unknownArgument

def take (r : Reading) (level : Level) (word : String) : Except UsageFault Reading :=
  if r.onlyFiles then r.takePlain level word
  else match word.toList with
    | ['-', '-'] => .ok { r with onlyFiles := true }
    | '-' :: '-' :: cs =>
      let name := cs.takeWhile (· != '=')
      let value := match cs.dropWhile (· != '=') with
        | [] => none
        | _ :: value => some (String.ofList value)
      r.takeLong level (String.ofList name) value
    | '-' :: c :: cs => r.takeLetters level (c :: cs)
    | _ => r.takePlain level word

def takeAll (r : Reading) (level : Level) : List String → Except UsageFault Given
  | [] => r.settle
  | word :: rest => (r.take level word).bind fun r => r.takeAll level rest

/-- Whether the next word may name a subcommand: it may not after `--`, where an option waits for its
value, and directly after a file. -/
def maySwitch (r : Reading) : Bool :=
  !r.onlyFiles && match r.pending with
    | .files _ | .option _ none => false
    | .nothing | .option _ (some _) => true

end Reading

/-! ## The whole command line -/

/-- The highest number of times the option for more output counts. -/
def maxVerbosity : Nat := 255

/-- How often the option for more output was given. -/
def Given.verbosity (g : Given) : Nat :=
  min maxVerbosity (g.flags.count .verbose)

/-- What is asked for by what is given before a subcommand, if there is one, and after it. The options
that both levels have count where they were given last. -/
def invocation (outer : Given) (inner : Option (Level × Given)) : Invocation :=
  let after := (inner.map (·.2)).getD {}
  { files := outer.files.map .ofString
    subcommand := match inner with
      | some (.checkEncoder, _) => some .checkEncoder
      | some (.listProfiles, _) => some .listProfiles
      | some (.initConfig, g) => some (.initConfig (g.flags.contains .force))
      | some (.batch, _) | none => none
    codec := outer.value? .codec
    outputDirectory := (outer.value? .outputDirectory).map .ofString
    configDirectory :=
      ((after.value? .configDirectory).or (outer.value? .configDirectory)).map .ofString
    skipMenu := outer.flags.contains .skipMenu
    dryRun := outer.flags.contains .dryRun
    saveDefaults := outer.flags.contains .saveDefaults
    noOpen := outer.flags.contains .noOpen
    verbosity := if after.verbosity = 0 then outer.verbosity else after.verbosity }

/-- Reads words from where a reading stands. The words after a subcommand are read before what is
pending ahead of it is completed. -/
def readFrom (r : Reading) : List String → Except UsageFault Invocation
  | [] => r.settle.map fun g => invocation g none
  | word :: rest =>
    if r.maySwitch && word == helpName then .error (helpFault rest)
    else match if r.maySwitch then Level.ofName? word else none with
      | some level => do
        let inner ← ({} : Reading).takeAll level rest
        let outer ← r.settle
        return invocation outer (some (level, inner))
      | none => (r.take .batch word).bind fun r => readFrom r rest

def read (words : List String) : Except UsageFault Invocation :=
  readFrom {} words

end CommandLine

end Transcode
