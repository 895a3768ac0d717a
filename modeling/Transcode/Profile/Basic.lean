import Transcode.Profile.Parameter
import Transcode.Settings.Basic
import Transcode.Text.Case

/-!
# Profiles

A profile describes one encoder: its name, what it is called in a command, and its parameters in the
order of the menu. Names are matched up to case, and up to blanks around the name asked for.
-/

namespace Transcode

/-! ## Keys with a meaning of their own -/

namespace Key

def passes : String := "passes"

/-- The key of the container, which is also the extension of the output. -/
def container : String := "container"

def scale : String := "scale"

/-- The key of the fix for odd picture sizes. It is a menu entry and no parameter. -/
def evenFix : String := "scale_fix"

end Key

/-- How an encoder is told which of two passes is running. -/
inductive PassStyle where
  /-- An option of its own. -/
  | flag
  /-- One of the vendor's parameters. -/
  | vendor
deriving DecidableEq

/-- The description of an encoder. -/
structure Profile where
  name : String
  /-- The name of the encoder in a command. -/
  videoCodec : String
  /-- The flag before the vendor's parameters. -/
  vendorFlag : Option String
  /-- Whether the encoder needs even picture sizes. -/
  evenDimensions : Bool
  /-- The key of the parameter shown in output names. -/
  qualityKey : String
  passStyle : PassStyle
  parameters : List Parameter
deriving DecidableEq

namespace Profile

def parameter? (p : Profile) (key : String) : Option Parameter :=
  p.parameters.find? fun q => q.key == key

/-- The parameters of a context, in the order of the profile. -/
def inContext (p : Profile) (c : Context) : List Parameter :=
  p.parameters.filter fun q => q.context == c

/-- Whether a name asks for a profile. -/
def isNamed (p : Profile) (name : String) : Bool :=
  Text.sameFolded p.name (Text.trim name)

/-- The name of a profile with that of its encoder. -/
def display (p : Profile) : String :=
  p.name ++ " (" ++ p.videoCodec ++ ")"

def defaultSettings (p : Profile) : Settings :=
  Keyed.ofList (p.parameters.filterMap fun q => q.default.map fun v => (q.key, v))

/-- The number of entries of a profile's menu: one for every parameter, and one for the fix of odd
picture sizes where the encoder needs even ones. -/
def menuSize (p : Profile) : Nat :=
  if p.evenDimensions then p.parameters.length + 1 else p.parameters.length

end Profile

end Transcode
