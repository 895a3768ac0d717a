import Transcode.Keyed
import Transcode.Settings.Setting

/-!
# Settings

Settings map parameter keys to values. A key without an entry is unset.
-/

namespace Transcode

abbrev Settings := Keyed Setting

namespace Settings

/-- The value under a key, unless it is to be left alone. -/
def renderable (s : Settings) (key : String) : Option Setting :=
  (s.get? key).filter Setting.isRenderable

def shown (s : Settings) (key : String) : String :=
  match s.get? key with
  | some v => v.display
  | none => "not set"

theorem renderable_eq_some_iff {s : Settings} {key : String} {v : Setting} :
    s.renderable key = some v ↔ s.get? key = some v ∧ v ≠ .dontChange := by
  simp only [renderable, Option.filter_eq_some_iff, and_congr_right_iff]
  intro _
  cases v <;> simp [Setting.isRenderable]

end Settings

end Transcode
