import Transcode.Dialogue
import Transcode.Host.Exit
import Transcode.Host.Log
import Transcode.Inputs

/-!
# Hosts

A host is what the program runs on: files, a terminal, a log, other programs and a clock. The program
is written once for every host, be it a machine or a value that stands for one.
-/

namespace Transcode

open Text (Bytes)

/-- What the program needs of the machine. -/
structure Host (m : Type → Type) where
  /-- Puts text on the standard output. -/
  print : String → m Unit
  /-- Puts a line on the standard error output. -/
  complain : String → m Unit
  /-- Writes to the log. -/
  log : LogLevel → String → m Unit
  /-- Shows something to the user. -/
  present : Event → m Unit
  /-- Carries on a dialogue with the user from some state. -/
  converse : {σ ρ : Type} → Dialogue σ ρ → σ → m (Except SystemFault ρ)
  /-- The directory for the configurations of the user's programs. -/
  configHome : m (Option Path)
  /-- Whether a path leads to anything. -/
  holds : Path → m Bool
  /-- Reads a text file. -/
  readText : Path → m (Except SystemFault String)
  /-- Writes a text file. -/
  writeText : Path → String → m (Except SystemFault Unit)
  /-- Creates a directory and those above it, as far as they are missing. -/
  createDirectories : Path → m (Except SystemFault Unit)
  /-- Finds the inputs of a list of paths. -/
  collect : List Path → m Inputs
  /-- Runs a program that shares the terminal. -/
  execute : Command → m Launch
  /-- Runs a program and keeps its output. -/
  capture : Command → m (Except SystemFault (ExitStatus × Bytes))
  /-- Shows a directory to the user. -/
  openDirectory : Path → m (Except Causes Unit)
  /-- The time, in milliseconds. -/
  milliseconds : m Int

def Host.printLine {m : Type → Type} (host : Host m) (line : String) : m Unit :=
  host.print (line ++ "\n")

end Transcode
