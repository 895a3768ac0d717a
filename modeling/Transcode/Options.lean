import Transcode.Profile.Registry
import Transcode.Settings.Json

/-!
# Options

The options hold the settings of profiles under the names of the profiles. A name is found up to case
and up to blanks around it, so several names may stand for one profile; what is stored replaces them
all.
-/

namespace Transcode

/-- Settings under the names of their profiles. -/
abbrev Options := Keyed Settings

namespace Options

/-- The settings that the profiles of a registry start with. -/
def defaults (r : Registry) : Options :=
  Keyed.ofList (r.profiles.map fun p => (p.name, p.defaultSettings))

/-- The settings stored for a profile: those under the first name, in the order of the names, that
asks for it. -/
def stored? (o : Options) (p : Profile) : Option Settings :=
  (o.find? p.isNamed).map (·.2)

/-- The settings of a profile: those stored, or else those it starts with. -/
def settingsFor (o : Options) (p : Profile) : Settings :=
  (o.stored? p).getD p.defaultSettings

/-- Stores the settings of a profile in the stead of all that are stored for it. -/
def store (o : Options) (p : Profile) (s : Settings) : Options :=
  (o.filterKeys fun name => !p.isNamed name).insert p.name s

/-! ## As JSON -/

/-- Stores one member after the other. -/
def storeMembers? (o : Options) : List (String × Json) → Option Options
  | [] => some o
  | (name, v) :: rest => (Settings.ofJson? v).bind fun s => storeMembers? (o.insert name s) rest

def ofJson? : Json → Option Options
  | .object members => storeMembers? Keyed.empty members
  | _ => none

def toJson (o : Options) : Json :=
  .object (o.entries.map fun (name, s) => (name, s.toJson))

def read? (json : String) : Option Options :=
  (Json.read? json).bind ofJson?

/-- The text of options, as it is kept in a file. -/
def text (o : Options) : String :=
  o.toJson.prettyText

end Options

end Transcode
