import Transcode.Dialogue
import Transcode.Profile.Basic
import Transcode.Plan.Mode

/-!
# The screens of the editor

What the editor shows when it comes to a question.
-/

namespace Transcode.Editor

def promptMark : String := "> "

/-- What is shown after a number that is no choice. -/
def tryAgain : String := "Invalid choice, try again."

/-- Lines with their numbers before them, counted from one. -/
def numbered (lines : List String) : List String :=
  lines.mapIdx fun i line => Number.natText (i + 1) ++ ". " ++ line

def entry (label : String) (s : Settings) (key : String) : String :=
  label ++ " (Now: " ++ s.shown key ++ ")"

def entries (p : Profile) (s : Settings) : List String :=
  p.parameters.map (fun q => entry q.label s q.key) ++
    if p.evenDimensions then [entry "Fix resolution" s Key.evenFix] else []

/-- The menu, with what there is to say about the last answer. -/
def menuScreen (p : Profile) (s : Settings) (notice : Option String) : List Event :=
  .clear :: (["Codec: " ++ p.display, "Select option:"] ++ numbered (entries p s) ++
    ["Enter empty input to finish selection"] ++ notice.toList).map .say

def directScreen (q : Parameter) (range : Range) : List Event :=
  .clear :: ([q.help] ++
    (if range = .any then [] else ["Allowed: " ++ range.display]) ++
    (if q.resettable then ["Enter 'r' or 'reset' to leave this parameter unchanged."]
      else [])).map .say

def choiceLines (q : Parameter) (choices : List Choice) : List Event :=
  (numbered (choices.map (·.label)) ++ if q.resettable then ["r. Don't change"] else []).map .say

def choiceScreen (q : Parameter) (choices : List Choice) : List Event :=
  .clear :: .say q.help :: choiceLines q choices

def scaleLines : List Event :=
  ["Scale options (empty to go back):", "1. Height", "2. Width", "3. Resolution (W:H)",
    "4. Reset to original"].map .say

def evenFixLines : List Event :=
  ["Fix resolution options:", "1. Add 1px padding (pad)", "2. Crop 1px (crop)",
    "3. Cancel"].map .say

end Transcode.Editor
