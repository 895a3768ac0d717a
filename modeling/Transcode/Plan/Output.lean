import Transcode.Path.Basic
import Transcode.Plan.Mode

/-!
# Output names

The output of an input goes to the output directory, under a name made of the input's stem, the
profile, the quality and the number of passes, with the container as its extension.
-/

namespace Transcode

/-- What is shown of an input in the name of its output. -/
def Path.shownStem (input : Path) : String :=
  match input.stem? with
  | some stem => Text.Utf8.lossy stem
  | none => "output"

/-- The quality as it stands in the name of an output. -/
def Profile.shownQuality (p : Profile) (s : Settings) : String :=
  match s.renderable p.qualityKey with
  | some v => v.display
  | none => "default"

def Profile.outputName (p : Profile) (s : Settings) (input : Path) (mode : PassMode)
    (container : String) : String :=
  input.shownStem ++ "_" ++ p.name ++ "_q" ++ p.shownQuality s ++ "_" ++ mode.suffix ++ "." ++
    container

def Profile.outputPath (p : Profile) (s : Settings) (input directory : Path) (mode : PassMode)
    (container : String) : Path :=
  directory.join (.ofString (p.outputName s input mode container))

end Transcode
