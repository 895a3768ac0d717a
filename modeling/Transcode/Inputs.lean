import Transcode.FileTree
import Transcode.Text.Case

/-!
# Inputs

The paths to transcode are files, which are taken as they are, and directories, in which the videos
are searched for. Videos are known by the extensions of their names.
-/

namespace Transcode

/-- The extensions of videos, in small letters. -/
def videoExtensions : List String :=
  ["mp4", "mkv", "webm", "mov", "avi", "flv", "m4v", "wmv", "ts"]

/-- Whether a path has the extension of a video, in letters of any case. -/
def Path.isVideo (p : Path) : Bool :=
  match p.extension?.bind Text.Utf8.text? with
  | some e => videoExtensions.contains (String.ofList (e.toList.map Text.smallLetter))
  | none => false

def sortPaths (paths : List Path) : List Path :=
  paths.mergeSort fun p q => !q.before p

/-- The files to transcode, the paths that lead nowhere, and the directories that were searched, with
the number of videos in them. -/
structure Inputs where
  files : List Path
  missing : List Path
  searched : List (Path × Nat)
deriving DecidableEq

namespace FileTree

/-- The videos in a directory and in those below it, in the order of their paths. -/
def scan (t : FileTree) (p : Path) : List Path :=
  sortPaths ((t.pathsFrom p).filter fun q => t.isFile q && q.isVideo)

/-- The inputs of a list of paths, directories being expanded in their places. -/
def collect (t : FileTree) (paths : List Path) : Inputs where
  files := paths.flatMap fun p =>
    if t.isDirectory p then t.scan p else if t.isFile p then [p] else []
  missing := paths.filter fun p => !t.isDirectory p && !t.isFile p
  searched := (paths.filter t.isDirectory).map fun p => (p, (t.scan p).length)

end FileTree

end Transcode
