import ApiRules.Archive.Bytes
import ApiRules.FileError
import ApiRules.FilePath

/-!
What the programs do with files, in any monad that can do it.
-/
namespace ApiRules

open Archive

structure FileSystem (m : Type → Type) where
  /-- The absolute path of the directory where relative paths start. -/
  workDirectory : m String
  read : String → m (Except FileError Bytes)
  isFile : String → m Bool
  isDirectory : String → m Bool
  /-- The files below a directory, each as the names that lead to it; for a file that file alone. There
  is no answer if nothing is there. -/
  files : String → m (Option (List (List String)))
  /-- Makes one directory where nothing is. -/
  makeDirectory : String → m (Except FileError Unit)
  /-- Writes a file in a directory that is there. -/
  write : String → Bytes → m (Except FileError Unit)

namespace FileSystem

variable {m : Type → Type} [Monad m]

/-- The text of a file. -/
def readText (fs : FileSystem m) (path : String) : m (Except FileError String) := do
  match ← fs.read path with
  | .error error => return .error error
  | .ok bytes =>
    match toText? bytes with
    | some text => return .ok text
    | none => return .error .notUtf8

/-- What making a directory came to. That the directory is there already is no failure. -/
def settle (fs : FileSystem m) (path : String) : Except FileError Unit → m (Except FileError Unit)
  | .ok () => return .ok ()
  | .error error => return if ← fs.isDirectory path then .ok () else .error error

/-- Makes a directory, and before it those around it if it cannot be made without them. The pieces of
the path come from the last one to the first. -/
def makeDirectories (fs : FileSystem m) : List String → m (Except FileError Unit)
  | [] => return .ok ()
  | piece :: around =>
    if FilePath.isIdle piece then makeDirectories fs around
    else do
      let path := FilePath.ofPieces (piece :: around)
      match ← fs.makeDirectory path with
      | .error .notFound =>
        match ← makeDirectories fs around with
        | .error error => return .error error
        | .ok () => fs.settle path (← fs.makeDirectory path)
      | made => fs.settle path made

/-- Writes a file and makes the directories it needs. -/
def save (fs : FileSystem m) (path : String) (content : Bytes) : m (Except FileError Unit) := do
  match ← fs.makeDirectories (FilePath.piecesBefore path) with
  | .error error => return .error error
  | .ok () => fs.write path content

end FileSystem

end ApiRules
