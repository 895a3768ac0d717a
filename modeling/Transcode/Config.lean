import Transcode.Path.Basic
import Transcode.Text.Shown
import Transcode.Toml.Reader

/-!
# Configuration

The configuration says which profile is used when none is asked for, where outputs go, and whether
the output directory is offered to be opened. It is kept as the TOML table `defaults`. What is not
mentioned there keeps its default, and what is not known is ignored.
-/

namespace Transcode

/-- The defaults of a batch. -/
structure Config where
  profile : Option String := none
  outputDirectory : Path := .ofString "output"
  openOutputDirectory : Bool := true
deriving DecidableEq

namespace Config

/-! ## Reading -/

def text? : Toml → Option String
  | .text s => some s
  | _ => none

def bool? : Toml → Option Bool
  | .bool b => some b
  | _ => none

/-- The configuration of three optional values, each of which has to be of its type. -/
def ofValues? (profile outputDirectory openOutputDirectory : Option Toml) : Option Config := do
  let default : Config := {}
  let profile ← match profile with
    | some v => (text? v).map some
    | none => some default.profile
  let outputDirectory ← match outputDirectory with
    | some v => (text? v).map Path.ofString
    | none => some default.outputDirectory
  let openOutputDirectory ← match openOutputDirectory with
    | some v => bool? v
    | none => some default.openOutputDirectory
  return ⟨profile, outputDirectory, openOutputDirectory⟩

/-- The configuration of a value. A list holds the values of a table in their order, and a date
holds none of them. -/
def ofToml? : Toml → Option Config
  | .table _ entries =>
    ofValues? (Toml.find? "profile" entries) (Toml.find? "output_dir" entries)
      (Toml.find? "open_output_dir" entries)
  | .list items => ofValues? items[0]? items[1]? items[2]?
  | .moment _ => some {}
  | _ => none

def read? (s : String) : Option Config :=
  (Toml.read? s).bind fun entries =>
    match Toml.find? "defaults" entries with
    | some v => ofToml? v
    | none => some {}

/-! ## Writing -/

/-- An assignment on a line of its own. -/
def line (key : String) (value : List Char) : String :=
  key ++ " = " ++ String.ofList value ++ "\n"

/-- The TOML text of a configuration. A directory whose name is no text has none. -/
def toml? (c : Config) : Option String :=
  (Text.Utf8.text? c.outputDirectory.bytes).map fun directory =>
    let profile := match c.profile with
      | some name => line "profile" (Toml.quoted name)
      | none => ""
    "[defaults]\n" ++ profile ++ line "output_dir" (Toml.quoted directory) ++
      line "open_output_dir" (if c.openOutputDirectory then "true" else "false").toList

/-- A description of a configuration, with a line for every value. -/
def describe (c : Config) : String :=
  let profile := match c.profile with
    | some name => "Some(\n        " ++ Text.shown name ++ ",\n    )"
    | none => "None"
  "DefaultsConfig \x7b\n    profile: " ++ profile ++ ",\n    output_dir: " ++
    Text.shownName c.outputDirectory.display ++ ",\n    open_output_dir: " ++
    (if c.openOutputDirectory then "true" else "false") ++ ",\n\x7d"

end Config

end Transcode
