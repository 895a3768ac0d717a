import Transcode.Profile.Basic

/-!
# Registries

A registry is a list of profiles in which no two names differ by case alone and every profile is
consistent in itself. Building one finds the first fault in the order of the list.
-/

namespace Transcode

/-- What is wrong with a parameter. -/
inductive ParameterFault where
  | integerBounds
  | floatBounds
  | noChoices
  | scaleElsewhere
  | flaggedMetadata
deriving DecidableEq

/-- What is wrong with a list of profiles. -/
inductive ProfileFault where
  | duplicateProfile (name : String)
  | duplicateParameter (profile key : String)
  | missingMetadata (profile key : String)
  | unknownQualityKey (profile key : String)
  | missingVendorFlag (profile : String)
  | scaleParameterWithoutScale (profile : String)
  | invalidParameter (profile key : String) (fault : ParameterFault)
deriving DecidableEq

def ParameterFault.message : ParameterFault → String
  | integerBounds => "integer range has min > max"
  | floatBounds => "float range has min > max"
  | noChoices => "choice list is empty"
  | scaleElsewhere => "scale must be a video filter"
  | flaggedMetadata => "meta parameters are never rendered as flags"

def ProfileFault.message : ProfileFault → String
  | duplicateProfile name => "Duplicate profile name '" ++ name ++ "'"
  | duplicateParameter profile key =>
    "Profile '" ++ profile ++ "' declares parameter '" ++ key ++ "' twice"
  | missingMetadata profile key =>
    "Profile '" ++ profile ++ "' has no '" ++ key ++ "' meta parameter"
  | unknownQualityKey profile key =>
    "Profile '" ++ profile ++ "' uses quality key '" ++ key ++ "' which is not a parameter"
  | missingVendorFlag profile =>
    "Profile '" ++ profile ++
      "' has vendor-special parameters or vendor pass style but no vendor flag"
  | scaleParameterWithoutScale profile =>
    "Profile '" ++ profile ++ "' has scale-filter parameters but no scale parameter"
  | invalidParameter profile key fault =>
    "Parameter '" ++ key ++ "' in profile '" ++ profile ++ "' is invalid: " ++ fault.message

namespace Parameter

/-- What is wrong with how a parameter is edited. -/
def kindFault? (p : Parameter) : Option ParameterFault :=
  match p.kind with
  | .direct (.int min max) | .direct (.kbps min max) =>
    if max.toInt < min.toInt then some .integerBounds else none
  | .direct (.float min max) => if max.lt min then some .floatBounds else none
  | .direct (.oneOf _) | .direct .any => none
  | .choice choices => if choices.isEmpty then some .noChoices else none
  | .scale => if p.context == .videoFilter then none else some .scaleElsewhere

/-- What is wrong with a parameter in itself. -/
def fault? (p : Parameter) : Option ParameterFault :=
  p.kindFault?.or <|
    if p.context == .metadata && p.flag.isSome then some .flaggedMetadata else none

end Parameter

namespace Profile

/-- The first fault among parameters, `earlier` being those before them. -/
def parametersFault? (profile : String) (earlier : List Parameter) :
    List Parameter → Option ProfileFault
  | [] => none
  | p :: rest =>
    if earlier.any fun q => q.key == p.key then some (.duplicateParameter profile p.key)
    else match p.fault? with
      | some fault => some (.invalidParameter profile p.key fault)
      | none => parametersFault? profile (earlier ++ [p]) rest

/-- A key that has to belong to a parameter that is never rendered. -/
def metadataFault? (p : Profile) (key : String) : Option ProfileFault :=
  match p.parameter? key with
  | some q => if q.context == .metadata then none else some (.missingMetadata p.name key)
  | none => some (.missingMetadata p.name key)

/-- The first fault of a profile in itself. -/
def fault? (p : Profile) : Option ProfileFault :=
  (parametersFault? p.name [] p.parameters)
    |>.or (p.metadataFault? Key.passes)
    |>.or (p.metadataFault? Key.container)
    |>.or (if (p.parameter? p.qualityKey).isNone then
        some (.unknownQualityKey p.name p.qualityKey) else none)
    |>.or (if (!(p.inContext .vendorSpecialOption).isEmpty || p.passStyle == .vendor)
          && p.vendorFlag.isNone then
        some (.missingVendorFlag p.name) else none)
    |>.or (if !(p.inContext .scaleFilterParameter).isEmpty && !p.parameters.any (·.isScale) then
        some (.scaleParameterWithoutScale p.name) else none)

end Profile

/-- Profiles that were found consistent. -/
structure Registry where
  profiles : List Profile
deriving DecidableEq, Inhabited

namespace Registry

/-- The first fault among profiles, `earlier` being those before them. -/
def profilesFault? (earlier : List Profile) : List Profile → Option ProfileFault
  | [] => none
  | p :: rest =>
    if earlier.any fun q => Text.sameFolded q.name p.name then some (.duplicateProfile p.name)
    else match p.fault? with
      | some fault => some fault
      | none => profilesFault? (earlier ++ [p]) rest

/-- A registry of profiles, unless one of them has a fault. -/
def ofProfiles (profiles : List Profile) : Except ProfileFault Registry :=
  match profilesFault? [] profiles with
  | some fault => .error fault
  | none => .ok ⟨profiles⟩

/-- The first profile that a name asks for. -/
def lookup? (r : Registry) (name : String) : Option Profile :=
  r.profiles.find? fun p => p.isNamed name

def names (r : Registry) : List String :=
  r.profiles.map (·.name)

end Registry

end Transcode
