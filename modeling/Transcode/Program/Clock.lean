import Transcode.Number.Integer

/-!
# Time spent

A time span is shown in hours, minutes and seconds, each with two digits at least. Parts of a second
are dropped, and a span below zero is shown as zero.
-/

namespace Transcode

/-- A number with two digits at least. -/
def twoDigits (n : Nat) : String :=
  if n < 10 then "0" ++ Number.natText n else Number.natText n

def clockText (milliseconds : Int) : String :=
  let seconds := milliseconds.toNat / 1000
  twoDigits (seconds / 3600) ++ ":" ++ twoDigits (seconds % 3600 / 60) ++ ":" ++
    twoDigits (seconds % 60)

example : clockText 3725999 = "01:02:05" := by cbv
example : clockText (-1) = "00:00:00" := by cbv
example : clockText 360000000 = "100:00:00" := by cbv

end Transcode
