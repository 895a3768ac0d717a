import Transcode.Command
import Transcode.Plan.Output
import Transcode.Plan.Rendering

/-!
# Plans

A plan is what it takes to transcode one input: one command, or an analysis followed by an encoding.
All commands of a plan share what is rendered from the settings; they differ in the marker of the
pass, and the analysis leaves out the sound and discards the picture.
-/

namespace Transcode

open Text (Bytes)

/-- The commands for an input, in the order in which they run, and where the result goes. -/
structure Plan where
  mode : PassMode
  output : Path
  commands : List Command
deriving DecidableEq

/-- What is rendered from settings, by the place it takes in a command. -/
structure Rendering where
  videoFilters : List String
  videoOptions : List String
  vendor : List String
  audioFilters : List String
  audioSelector : List String
  audioOptions : List String

/-- Which command of a plan it is. -/
inductive Pass where
  | single
  | analysis
  | encode
deriving DecidableEq

/-- The number an encoder is given for a pass of two. -/
def Pass.number? : Pass → Option String
  | single => none
  | analysis => some "1"
  | encode => some "2"

def encoderProgram : Bytes := Text.Utf8.encode "ffmpeg"

/-- Where the analysis sends the picture it does not need. -/
def nullTarget : String := "/dev/null"

namespace Profile

/-- Renders settings, with a fix for odd picture sizes. -/
def rendering (p : Profile) (s : Settings) (fix : Option EvenFix) : Rendering where
  videoFilters := p.videoFilters s fix
  videoOptions := p.arguments s .videoCodecOption
  vendor := p.fragments s .vendorSpecialOption
  audioFilters := p.fragments s .audioFilter
  audioSelector := p.arguments s .audioCodecSelector
  audioOptions := p.arguments s .audioCodecOption

/-- An option with joined values, left out if there are none. -/
def joinedOption (flag separator : String) (values : List String) : List Argument :=
  if values.isEmpty then [] else [.bare flag, .inQuotes (separator.intercalate values)]

/-- The option that tells the encoder which pass is running. -/
def passOption (p : Profile) (pass : Pass) : List Argument :=
  match pass.number?, p.passStyle with
  | some n, .flag => [.bare "-pass", .bare n]
  | _, _ => []

/-- The vendor's parameters, with the one that tells which pass is running. -/
def vendorValues (p : Profile) (r : Rendering) (pass : Pass) : List String :=
  match pass.number?, p.passStyle with
  | some n, .vendor => r.vendor ++ ["pass=" ++ n]
  | _, _ => r.vendor

/-- The option with the vendor's parameters, left out if there are none. -/
def vendorOption (p : Profile) (r : Rendering) (pass : Pass) : List Argument :=
  match p.vendorFlag with
  | some flag =>
    if (p.vendorValues r pass).isEmpty then []
    else [.bare flag, .bare (":".intercalate (p.vendorValues r pass))]
  | none => []

/-- The arguments up to the vendor's parameters. -/
def videoArguments (p : Profile) (r : Rendering) (input : Path) (pass : Pass) : List Argument :=
  [.bare "-y", .bare "-i", ⟨input.bytes, true⟩] ++
    joinedOption "-vf" "," r.videoFilters ++
    [.bare "-c:v", .bare p.videoCodec] ++
    r.videoOptions.map .bare ++
    p.passOption pass ++
    p.vendorOption r pass

/-- The arguments after the vendor's parameters. -/
def closingArguments (r : Rendering) (output : Path) (pass : Pass) : List Argument :=
  match pass with
  | .analysis => ["-an", "-f", "null", nullTarget].map .bare
  | .single | .encode =>
    joinedOption "-af" "," r.audioFilters ++
      r.audioSelector.map .bare ++
      r.audioOptions.map .bare ++
      [⟨output.bytes, true⟩]

def command (p : Profile) (r : Rendering) (input output : Path) (pass : Pass) : Command where
  program := encoderProgram
  arguments := p.videoArguments r input pass ++ closingArguments r output pass

def container (p : Profile) (s : Settings) : Except PlanFault String :=
  match s.renderable Key.container with
  | some v => if Text.isBlankLine v.display then .error (.missingContainer p.name) else .ok v.display
  | none => .error (.missingContainer p.name)

/-- The fix for odd picture sizes that settings select, where the encoder needs one. -/
def evenFix (p : Profile) (s : Settings) : Except PlanFault (Option EvenFix) :=
  if p.evenDimensions then EvenFix.ofSetting (s.get? Key.evenFix) else .ok none

def passes : PassMode → List Pass
  | .onePass => [.single]
  | .twoPass => [.analysis, .encode]

/-- The plan for an input. The pass mode, the container and the fix are checked in this order. -/
def plan (p : Profile) (s : Settings) (input directory : Path) : Except PlanFault Plan := do
  let mode ← PassMode.ofSetting (s.get? Key.passes)
  let container ← p.container s
  let fix ← p.evenFix s
  let output := p.outputPath s input directory mode container
  return ⟨mode, output, (passes mode).map (p.command (p.rendering s fix) input output)⟩

end Profile

end Transcode
