import Transcode.Editor.ProfileMenu

/-!
# Selecting a profile

A profile is asked for by name, or chosen from the menu if there is no such name. Where the menu is
not wanted there has to be a name, and a known one.
-/

namespace Transcode

/-- Why no profile is selected. -/
inductive SelectionFault where
  | unknownName (name : String) (known : List String)
  | noName
  | noAnswer
deriving DecidableEq

def SelectionFault.message : SelectionFault → String
  | unknownName name known =>
    "Unknown codec '" ++ name ++ "' (available: " ++ ", ".intercalate known ++ ")"
  | noName => "No codec selected: pass --codec or set defaults.profile in the config"
  | noAnswer => "No codec selected"

/-- How it is decided which profile is selected. -/
inductive Selection where
  | settled (profile : Profile)
  | refused (fault : SelectionFault)
  /-- The menu decides, after a notice about the name. -/
  | menu (notice : Option String)
deriving DecidableEq

namespace Selection

def ofRequest (r : Registry) (requested : Option String) (skipMenu : Bool) : Selection :=
  match requested with
  | none => if skipMenu then refused .noName else menu none
  | some name =>
    match r.lookup? name with
    | some p => settled p
    | none =>
      if skipMenu then refused (.unknownName name r.names)
      else menu (some ("Unknown codec '" ++ name ++ "'"))

def ofChoice : Option Profile → Except SelectionFault Profile
  | some p => .ok p
  | none => .error .noAnswer

/-- Selects a profile with the lines of a script, which are read only if the menu decides. -/
def run (r : Registry) (script : List String) : Selection → Session (Except SelectionFault Profile)
  | settled p => ⟨[], .ok p, script⟩
  | refused fault => ⟨[], .error fault, script⟩
  | menu notice =>
    let session := ProfileMenu.choose r script
    ⟨notice.toList.map .say ++ session.events, ofChoice session.result, session.unread⟩

end Selection

end Transcode
