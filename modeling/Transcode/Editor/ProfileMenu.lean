import Transcode.Editor.Screen
import Transcode.Profile.Registry
import Transcode.Validation.Input

/-!
# The menu of profiles

The menu of profiles asks until a line holds the number of a profile. Only the end of the input ends
it without one; a blank line is refused like any other.
-/

namespace Transcode.ProfileMenu

open Editor (numbered promptMark tryAgain)

def screen (r : Registry) : List Event :=
  ("Select codec:" :: numbered r.names).map .say

/-- An answer: a profile, the end of the input, or a line that is refused. -/
def answer (r : Registry) (line : Option String) : Turn Unit (Option Profile) :=
  match line with
  | none => ⟨[], .done none⟩
  | some line =>
    match h : choiceIndex? line r.profiles.length with
    | some i => ⟨[], .done (some (r.profiles.get ⟨i, choiceIndex?_lt h⟩))⟩
    | none => ⟨[.say tryAgain], .ask ()⟩

def dialogue (r : Registry) : Dialogue Unit (Option Profile) where
  prompt _ := promptMark
  answer _ line := answer r line
  patience _ := 0
  patience_lt h := by simp [answer] at h

/-- Asks for a profile with the lines of a script. -/
def choose (r : Registry) (script : List String) : Session (Option Profile) :=
  let session := (dialogue r).run () script
  { session with events := screen r ++ session.events }

end Transcode.ProfileMenu
