import Transcode.Text.Order
import Transcode.Text.Split
import Transcode.Text.Utf8

/-!
# Paths

A path is a sequence of bytes in which slashes separate the components. Repeated slashes, slashes at
the end and components `.` after the first change nothing. Paths are ordered component by component,
so a directory's contents stay together.
-/

namespace Transcode

open Text (Bytes)

/-- A path, relative or absolute. -/
structure Path where
  bytes : Bytes
deriving DecidableEq, Inhabited

namespace Path

def slash : UInt8 := 0x2F

def dot : UInt8 := 0x2E

def ofString (s : String) : Path :=
  ⟨Text.Utf8.encode s⟩

def display (p : Path) : String :=
  Text.Utf8.lossy p.bytes

/-- A part of a path. -/
inductive Component where
  | root
  | current
  | parent
  | name (bytes : Bytes)
deriving DecidableEq

def splitSlashes (bytes : Bytes) : List Bytes :=
  Text.split slash bytes

def joinSlashes (parts : List Bytes) : Bytes :=
  [slash].intercalate parts

def isAbsolute (p : Path) : Bool :=
  p.bytes.head? == some slash

/-- What stands before the names of a path. -/
inductive Lead where
  | nothing
  | root
  | current
deriving DecidableEq

/-- What a path starts with, and the parts between the slashes after it. -/
def parts (p : Path) : Lead × List Bytes :=
  match p.bytes with
  | [] => (.nothing, [])
  | b :: rest =>
    if b = slash then (.root, splitSlashes rest)
    else match splitSlashes (b :: rest) with
      | part :: parts => if part = [dot] then (.current, parts) else (.nothing, part :: parts)
      | [] => (.nothing, [])

/-- A part that leads nowhere. -/
def isIdle (part : Bytes) : Bool :=
  part == [] || part == [dot]

def Component.ofPart (part : Bytes) : Component :=
  if part = [dot, dot] then .parent else .name part

/-- The components after the lead. -/
def names (p : Path) : List Component :=
  (p.parts.2.filter fun part => !isIdle part).map Component.ofPart

def components (p : Path) : List Component :=
  match p.parts.1 with
  | .nothing => p.names
  | .root => .root :: p.names
  | .current => .current :: p.names

/-- The last component, if it is a name. -/
def fileName? (p : Path) : Option Bytes :=
  match p.components.getLast? with
  | some (.name n) => some n
  | _ => none

/-- Splits a file name at its last dot, unless that is the first byte. -/
def splitExtension (name : Bytes) : Bytes × Option Bytes :=
  let after := (name.reverse.takeWhile (· != dot)).reverse
  let before := name.take (name.length - after.length - 1)
  if after.length = name.length || before.isEmpty then (name, none) else (before, some after)

def stem? (p : Path) : Option Bytes :=
  p.fileName?.map fun n => (splitExtension n).1

/-- What follows the last dot of the file name. -/
def extension? (p : Path) : Option Bytes :=
  p.fileName?.bind fun n => (splitExtension n).2

/-- A path below a directory: the path itself if it is absolute, and otherwise both with a slash
between them, unless the directory ends with one or is empty. -/
def join (dir p : Path) : Path :=
  if p.isAbsolute then p
  else if dir.bytes.isEmpty || dir.bytes.getLast? == some slash then ⟨dir.bytes ++ p.bytes⟩
  else ⟨dir.bytes ++ slash :: p.bytes⟩

def dropIdle (parts : List Bytes) : List Bytes :=
  (parts.reverse.dropWhile isIdle).reverse

/-- The path without its last component; the root and the empty path have none. -/
def parent? (p : Path) : Option Path :=
  match p.parts.1, dropIdle p.parts.2 with
  | .current, [] => some ⟨[]⟩
  | _, [] => none
  | .nothing, parts => some ⟨joinSlashes (dropIdle parts.dropLast)⟩
  | .root, parts => some ⟨slash :: joinSlashes (dropIdle parts.dropLast)⟩
  | .current, parts => some ⟨joinSlashes ([dot] :: dropIdle parts.dropLast)⟩

/-- The rank of a component: root, `.`, `..`, then names by their bytes. -/
def Component.rank : Component → List Nat
  | .root => [0]
  | .current => [1]
  | .parent => [2]
  | .name n => 3 :: n.map UInt8.toNat

def componentsBefore : List Component → List Component → Bool
  | _, [] => false
  | [], _ :: _ => true
  | a :: as, b :: bs =>
    Text.lexBefore a.rank b.rank || (a == b && componentsBefore as bs)

def before (p q : Path) : Bool :=
  componentsBefore p.components q.components

example : (ofString "a/./b//c.tar.gz").stem? = some (Text.Utf8.encode "c.tar") := by decide
example : (ofString ".hidden").extension? = none := by decide
example : (ofString "...").stem? = some (Text.Utf8.encode "..") := by decide
example : (ofString "foo/..").fileName? = none := by decide
example : before (ofString "v/a/z.mp4") (ofString "v/a b/c.mp4") = true := by decide
example : (ofString "o/").join (ofString "x") = ofString "o/x" := by decide

end Path

end Transcode
