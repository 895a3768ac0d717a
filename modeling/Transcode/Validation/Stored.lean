import Transcode.Profile.Basic
import Transcode.Validation.Input

/-!
# Checking stored settings

Settings come from files that may be edited by hand. Every value that may appear in a command is
checked again; unset values and values to be left alone are always in order.
-/

namespace Transcode

/-- Checks that a value is one of those of a list of choices. -/
def checkValue (choices : List Choice) (value : String) : Except InputFault Unit :=
  if choices.any fun c => c.value == value then .ok ()
  else .error (.notAllowed value (", ".intercalate (choices.map (·.value))))

/-- Checks the text of a stored value as a parameter's kind demands. -/
def Kind.check (k : Kind) (value : String) : Except InputFault Unit :=
  match k with
  | .direct range => checkInput range value
  | .choice choices => checkValue choices value
  | .scale => (checkResolution value).map fun _ => ()

/-- What is wrong with the value of a parameter. -/
def Parameter.storedFault? (p : Parameter) (s : Settings) : Option StoredFault :=
  match s.renderable p.key with
  | none => none
  | some v =>
    match p.kind.check v.display with
    | .ok _ => none
    | .error reason => some ⟨p.key, reason⟩

/-- What is wrong with the settings of a profile, in the order of its parameters. -/
def Profile.storedFaults (p : Profile) (s : Settings) : List StoredFault :=
  p.parameters.filterMap fun q => q.storedFault? s

end Transcode
