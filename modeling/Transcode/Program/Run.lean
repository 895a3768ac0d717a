import Transcode.Host.World
import Transcode.Program.Basic

/-!
# Runs on worlds

A command line and a world determine the exit code and the world after the run.
-/

namespace Transcode.Program

/-- Runs the program on a world for what a command line asks for. -/
def runOn (w : World) (inv : Invocation) : Nat × World :=
  (run World.host inv).run { w with verbosity := inv.verbosity }

end Transcode.Program
