import Transcode.Settings.Basic
import Transcode.Profile.Basic

/-!
# Pass mode and even picture sizes

Two stored values decide the shape of a plan: the number of passes, and the filter that makes an odd
picture size even. Both are unset by default and have to be one of two words otherwise.
-/

namespace Transcode

/-- Why settings cannot be turned into commands. -/
inductive PlanFault where
  | invalidPassMode (value : String)
  | missingContainer (profile : String)
  | invalidEvenFix (value : String)
deriving DecidableEq

def PlanFault.message : PlanFault → String
  | invalidPassMode value =>
    "Invalid pass mode '" ++ value ++ "', expected 'One-Pass' or 'Two-Pass'"
  | missingContainer profile => "No output container selected for profile '" ++ profile ++ "'"
  | invalidEvenFix value =>
    "Invalid resolution fix '" ++ value ++ "', expected 'pad' or 'crop'"

/-- How often an input is read: once, or once for analysis and once for encoding. -/
inductive PassMode where
  | onePass
  | twoPass
deriving DecidableEq

namespace PassMode

/-- The word for a pass mode, in settings and on the screen. -/
def display : PassMode → String
  | onePass => "One-Pass"
  | twoPass => "Two-Pass"

/-- The part of an output name that tells the pass mode. -/
def suffix : PassMode → String
  | onePass => "1pass"
  | twoPass => "2pass"

/-- The number of commands it takes. -/
def commandCount : PassMode → Nat
  | onePass => 1
  | twoPass => 2

/-- The pass mode that a stored value selects; one pass if there is none. -/
def ofSetting : Option Setting → Except PlanFault PassMode
  | none | some .dontChange => .ok onePass
  | some (.text s) =>
    if s = onePass.display then .ok onePass
    else if s = twoPass.display then .ok twoPass
    else .error (.invalidPassMode s)
  | some (.int n) => .error (.invalidPassMode (Setting.int n).display)

end PassMode

/-- How an odd picture size is made even: by adding a pixel, or by cutting one off. -/
inductive EvenFix where
  | pad
  | crop
deriving DecidableEq

namespace EvenFix

def value : EvenFix → String
  | pad => "pad"
  | crop => "crop"

def filter : EvenFix → String
  | pad => "pad=width=ceil(iw/2)*2:height=ceil(ih/2)*2"
  | crop => "crop=trunc(iw/2)*2:trunc(ih/2)*2"

/-- The fix that a stored value selects, if any. -/
def ofSetting : Option Setting → Except PlanFault (Option EvenFix)
  | none | some .dontChange => .ok none
  | some (.text s) =>
    if s = pad.value then .ok (some pad)
    else if s = crop.value then .ok (some crop)
    else .error (.invalidEvenFix s)
  | some (.int n) => .error (.invalidEvenFix (Setting.int n).display)

end EvenFix

end Transcode
