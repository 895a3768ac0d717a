import Transcode.Config
import Transcode.Host.Basic
import Transcode.Options

/-!
# Stored configuration and options

Both are kept in files of one directory, which are created with the defaults when they are missing.
The configuration can do without its file; the options cannot.
-/

namespace Transcode

/-- What is kept in a file. -/
inductive Document where
  | config
  | options
deriving DecidableEq

namespace Document

def word : Document → String
  | config => "config"
  | options => "options"

def fileName : Document → String
  | config => "config.toml"
  | options => "options.json"

def file (d : Document) (directory : Path) : Path :=
  directory.join (.ofString d.fileName)

end Document

/-- Why a document cannot be read or written. -/
inductive StorageFault where
  | read (document : Document) (file : Path) (fault : SystemFault)
  | parse (document : Document) (file : Path)
  | createDirectory (document : Document) (directory : Path) (fault : SystemFault)
  | encode (document : Document) (reason : String)
  | write (document : Document) (file : Path) (fault : SystemFault)

def StorageFault.causes : StorageFault → Causes
  | read d file fault =>
    ["Failed to read " ++ d.word ++ " file: " ++ file.display, fault.message]
  | parse d file => ["Failed to parse " ++ d.word ++ " file: " ++ file.display]
  | createDirectory d directory fault =>
    ["Failed to create " ++ d.word ++ " directory: " ++ directory.display, fault.message]
  | encode d reason => ["Failed to serialize " ++ d.word, reason]
  | write d file fault =>
    ["Failed to write " ++ d.word ++ " file: " ++ file.display, fault.message]

variable {m : Type → Type} [Monad m]

namespace Document

/-- Writes a document to a file, in a directory that is created if need be. -/
def save (host : Host m) (d : Document) (directory file : Path) (text : Except String String) :
    m (Except StorageFault Unit) := do
  match ← host.createDirectories directory with
  | .error fault => return .error (.createDirectory d directory fault)
  | .ok _ =>
    match text with
    | .error reason => return .error (.encode d reason)
    | .ok text => return (← host.writeText file text).mapError (.write d file)

/-- Reads a document from a file, if it is there. -/
def load {α : Type} (host : Host m) (d : Document) (file : Path) (read? : String → Option α) :
    m (Except StorageFault (Option α)) := do
  if ← host.holds file then
    match ← host.readText file with
    | .error fault => return .error (.read d file fault)
    | .ok text =>
      match read? text with
      | some a => return .ok (some a)
      | none => return .error (.parse d file)
  else return .ok none

end Document

namespace Config

def save (host : Host m) (directory : Path) (c : Config) : m (Except StorageFault Unit) :=
  Document.config.save host directory (Document.config.file directory) <|
    match c.toml? with
    | some text => .ok text
    | none => .error "path contains invalid UTF-8 characters"

/-- Reads the configuration of a directory. If there is none, the default one is created; it does not
matter whether that succeeds. -/
def load (host : Host m) (directory : Path) : m (Except StorageFault Config) := do
  match ← Document.config.load host (Document.config.file directory) read? with
  | .error fault => return .error fault
  | .ok (some c) => return .ok c
  | .ok none =>
    match ← save host directory {} with
    | .error fault =>
      host.log .warning ("Could not create default config file: " ++
        Causes.message fault.causes)
    | .ok _ => pure ()
    return .ok {}

end Config

namespace Options

/-- Writes options to a file, in a directory that is created if need be. -/
def save (host : Host m) (file : Path) (o : Options) : m (Except StorageFault Unit) :=
  Document.options.save host (file.parent?.getD ⟨[]⟩) file (.ok o.text)

/-- Reads options from a file. If there is none, it is created with the settings that the profiles
start with. -/
def load (host : Host m) (file : Path) (r : Registry) : m (Except StorageFault Options) := do
  match ← Document.options.load host file read? with
  | .error fault => return .error fault
  | .ok (some o) => return .ok o
  | .ok none =>
    match ← save host file (defaults r) with
    | .error fault => return .error fault
    | .ok _ =>
      host.log .info ("Created " ++ Document.options.fileName ++ " at " ++ file.display)
      return .ok (defaults r)

end Options

end Transcode
