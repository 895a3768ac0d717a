/-!
# Splitting

A sequence is split at every separator, so there is one part more than there are separators.
-/

namespace Transcode.Text

variable {α : Type} [DecidableEq α]

def split (separator : α) : List α → List (List α)
  | [] => [[]]
  | a :: rest =>
    match split separator rest with
    | [] => [[a]]
    | part :: parts => if a = separator then [] :: part :: parts else (a :: part) :: parts

/-- The lines of a sequence, the last of which need not be ended. -/
def splitLines (lineEnd : α) (as : List α) : List (List α) :=
  let parts := split lineEnd as
  if parts.getLast? = some [] then parts.dropLast else parts

theorem split_ne_nil (separator : α) (as : List α) : split separator as ≠ [] := by
  cases as with
  | nil => simp [split]
  | cons a rest =>
    simp only [split]
    split
    · simp
    · split <;> simp

example : split 0 [1, 0, 0, 2] = [[1], [], [2]] := by decide
example : splitLines 0 [1, 0, 0] = [[1], []] ∧ splitLines 0 [1, 0, 2] = [[1], [2]] := by decide

end Transcode.Text
