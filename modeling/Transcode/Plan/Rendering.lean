import Transcode.Plan.Mode

/-!
# Rendering parameters

Every parameter with a renderable value has a part of the command: its flag and its value, glued
together or not as its context demands. The parts of one context keep the order of the profile. The
parameters of the scale filter are appended to that filter, and the fix for odd picture sizes follows
the place of the first scale filter, or leads the filters if there is none.
-/

namespace Transcode

namespace Parameter

/-- A value as it stands in a command: an integer is followed by the parameter's unit. -/
def renderValue (p : Parameter) (v : Setting) : String :=
  match v, p.unit with
  | .int n, some unit => (Setting.int n).display ++ unit
  | v, _ => v.display

/-- Flag and value as they stand in a command. -/
def arrange (p : Parameter) (value : String) : List String :=
  match p.flag with
  | none => [value]
  | some flag =>
    if p.context.isJoined then [flag ++ p.context.separator ++ value] else [flag, value]

/-- The arguments for a parameter, if its value is renderable. -/
def render? (p : Parameter) (s : Settings) : Option (List String) :=
  (s.renderable p.key).map fun v => p.arrange (p.renderValue v)

/-- The part of a filter or of the vendor's parameters that belongs to a parameter. -/
def fragment? (p : Parameter) (s : Settings) : Option String :=
  (p.render? s).map fun args => " ".intercalate args

end Parameter

namespace Profile

def fragments (p : Profile) (s : Settings) (c : Context) : List String :=
  (p.inContext c).filterMap fun q => q.fragment? s

def arguments (p : Profile) (s : Settings) (c : Context) : List String :=
  ((p.inContext c).filterMap fun q => q.render? s).flatten

/-- The fragment of a video filter; the scale filter takes the scale parameters along. -/
def filterFragment? (p : Profile) (s : Settings) (q : Parameter) : Option String :=
  if q.isScale then
    (q.fragment? s).map fun scale =>
      (p.fragments s .scaleFilterParameter).foldl (fun text part => text ++ ":" ++ part) scale
  else q.fragment? s

/-- The fragments of video filters, with a filter put after the place of the first scale filter. -/
def weave (p : Profile) (s : Settings) (fix : Option String) : List Parameter → List String
  | [] => []
  | q :: rest =>
    if q.isScale then (p.filterFragment? s q).toList ++ fix.toList ++ p.weave s none rest
    else (p.filterFragment? s q).toList ++ p.weave s fix rest

/-- The video filters, with the fix for odd picture sizes. -/
def videoFilters (p : Profile) (s : Settings) (fix : Option EvenFix) : List String :=
  let filters := p.inContext .videoFilter
  let fix := fix.map EvenFix.filter
  if filters.any (·.isScale) then p.weave s fix filters
  else fix.toList ++ p.weave s none filters

end Profile

end Transcode
