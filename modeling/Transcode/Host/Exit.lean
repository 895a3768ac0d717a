import Transcode.Command
import Transcode.Host.Fault
import Transcode.Number.Integer

/-!
# How programs end

A program ends with a code, of which zero means success, or is ended by a signal.
-/

namespace Transcode

/-- What a failure is due to, the outermost cause first. -/
abbrev Causes := List String

def Causes.message (causes : Causes) : String :=
  ": ".intercalate causes

/-- How a program ended. -/
inductive ExitStatus where
  | exited (code : Nat)
  | signaled (signal : Nat) (coreDumped : Bool)
deriving DecidableEq

def signalName? : Nat → Option String
  | 0 => none
  | n + 1 =>
    ["SIGHUP", "SIGINT", "SIGQUIT", "SIGILL", "SIGTRAP", "SIGABRT", "SIGBUS", "SIGFPE", "SIGKILL",
      "SIGUSR1", "SIGSEGV", "SIGUSR2", "SIGPIPE", "SIGALRM", "SIGTERM", "SIGSTKFLT", "SIGCHLD",
      "SIGCONT", "SIGSTOP", "SIGTSTP", "SIGTTIN", "SIGTTOU", "SIGURG", "SIGXCPU", "SIGXFSZ",
      "SIGVTALRM", "SIGPROF", "SIGWINCH", "SIGIO", "SIGPWR", "SIGSYS"][n]?

namespace ExitStatus

def isSuccess (s : ExitStatus) : Bool :=
  s == exited 0

def display : ExitStatus → String
  | exited code => "exit status: " ++ Number.natText code
  | signaled signal coreDumped =>
    let name := match signalName? signal with
      | some name => " (" ++ name ++ ")"
      | none => ""
    "signal: " ++ Number.natText signal ++ name ++ (if coreDumped then " (core dumped)" else "")

end ExitStatus

/-- What starting a program comes to. -/
abbrev Launch := Except SystemFault ExitStatus

def Command.failure? (c : Command) : Launch → Option Causes
  | .error fault => some ["Failed to execute " ++ Text.Utf8.lossy c.program, fault.message]
  | .ok status =>
    if status.isSuccess then none
    else some [Text.Utf8.lossy c.program ++ " exited with status: " ++ status.display]

end Transcode
