import Transcode.Editor.Selection
import Transcode.Plan.Mode
import Transcode.Storage

/-!
# Failures

Why the program ends without success, and what it says then.
-/

namespace Transcode

/-- Why the program fails. -/
inductive Failure where
  | noConfigHome
  | storage (fault : StorageFault)
  | encoderMissing (fault : SystemFault)
  | encoderRefuses (status : ExitStatus)
  | noInputs
  | selection (fault : SelectionFault)
  | terminal (fault : SystemFault)
  | outputDirectory (directory : Path) (fault : SystemFault)
  | noVideos
  | plan (fault : PlanFault)
  | inputsFailed (failed total : Nat)

def Failure.causes : Failure → Causes
  | noConfigHome => ["Could not determine config directory"]
  | storage fault => fault.causes
  | encoderMissing fault =>
    ["Failed to execute ffmpeg. Is ffmpeg installed and in PATH?", fault.message]
  | encoderRefuses status => ["ffmpeg command failed with status: " ++ status.display]
  | noInputs => ["No input files. Pass video files or directories to convert"]
  | selection fault => [fault.message]
  | terminal fault => [fault.message]
  | outputDirectory directory fault =>
    ["Failed to create output directory: " ++ directory.display, fault.message]
  | noVideos => ["No video files to convert"]
  | plan fault => [fault.message]
  | inputsFailed failed total =>
    [Number.natText failed ++ " of " ++ Number.natText total ++ " files failed"]

def Failure.line (f : Failure) : String :=
  "Error: " ++ Causes.message f.causes

end Transcode
