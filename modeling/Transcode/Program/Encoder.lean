import Transcode.Plan.Basic
import Transcode.Program.Failure

/-!
# The encoder

Before a batch runs, the encoder is asked for its version.
-/

namespace Transcode

/-- The first line that is not blank, trimmed. -/
def versionLine (output : String) : String :=
  match (Text.splitLines '\n' output.toList).find? fun line => !line.all Text.isBlank with
  | some line => String.ofList (Text.trimChars line)
  | none => "Unknown version"

def versionCommand : Command :=
  (Command.ofProgram encoderProgram).push (.bare "-version")

variable {m : Type → Type} [Monad m]

def encoderVersion (host : Host m) : m (Except Failure String) := do
  match ← host.capture versionCommand with
  | .error fault => return .error (.encoderMissing fault)
  | .ok (status, output) =>
    if status.isSuccess then return .ok (versionLine (Text.Utf8.lossy output))
    else return .error (.encoderRefuses status)

example : versionLine "\n\n  v7 \r\nx" = "v7" := by decide
example : versionLine " \r" = "Unknown version" := by decide

end Transcode
