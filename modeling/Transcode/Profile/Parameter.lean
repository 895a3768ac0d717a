import Transcode.Profile.Range
import Transcode.Settings.Setting

/-!
# Parameters

A parameter says under which key its value is stored, how it is edited, and where in a command the
value goes.
-/

namespace Transcode

/-- An entry of a numbered list: what is shown, and the value it stands for. -/
structure Choice where
  label : String
  value : String
deriving DecidableEq

/-- How a parameter is edited. -/
inductive Kind where
  /-- A value is typed and checked against a range. -/
  | direct (range : Range)
  /-- A value is chosen from a numbered list. -/
  | choice (choices : List Choice)
  /-- A picture size is asked for by height, by width, or in full. -/
  | scale
deriving DecidableEq

/-- The part of a command that a parameter belongs to. -/
inductive Context where
  | videoFilter
  | audioFilter
  | videoCodecOption
  | audioCodecOption
  | audioCodecSelector
  | vendorSpecialOption
  | scaleFilterParameter
  /-- The parameter decides the file name and the number of passes and is never rendered. -/
  | metadata
deriving DecidableEq

namespace Context

/-- Whether flag and value are one argument, with an equals sign between them. -/
def isJoined : Context → Bool
  | videoFilter | audioFilter | vendorSpecialOption | scaleFilterParameter => true
  | videoCodecOption | audioCodecOption | audioCodecSelector | metadata => false

/-- What stands between flag and value. -/
def separator (c : Context) : String :=
  if c.isJoined then "=" else " "

/-- Whether a context is on the audio side of a command. -/
def isAudio : Context → Bool
  | audioFilter | audioCodecOption | audioCodecSelector => true
  | _ => false

def display : Context → String
  | videoFilter => "video-filter"
  | audioFilter => "audio-filter"
  | videoCodecOption => "video-codec-option"
  | audioCodecOption => "audio-codec-option"
  | audioCodecSelector => "audio-codec-selector"
  | vendorSpecialOption => "vendor-special-option"
  | scaleFilterParameter => "scale-filter-parameter"
  | metadata => "meta"

end Context

/-- A tunable parameter. -/
structure Parameter where
  /-- The key of its value in the settings. -/
  key : String
  /-- Its name in the menu. -/
  label : String := ""
  /-- What is shown while it is edited. -/
  help : String := ""
  kind : Kind
  /-- The flag or filter name before its value; without one the value stands alone. -/
  flag : Option String := none
  context : Context
  /-- Whether it may be left alone by typing a reset word. -/
  resettable : Bool := false
  /-- What follows an integer value in a command. -/
  unit : Option String := none
  /-- The value it starts with. -/
  default : Option Setting := none
deriving DecidableEq

namespace Parameter

/-- Whether this is the parameter for the picture size. -/
def isScale (p : Parameter) : Bool :=
  p.kind == .scale

/-- What its part of a command starts with, if it has a flag. -/
def marker (p : Parameter) : Option String :=
  p.flag.map fun flag => flag ++ p.context.separator

end Parameter

end Transcode
