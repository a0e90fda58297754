import ApiRules.FilePath
import ApiRules.FileSystem

/-!
File trees: a file system as a value. A place is the list of names that lead to it from the root, which is
always a directory.
-/
namespace ApiRules

open Archive

namespace FileTree

abbrev Place := List String

inductive Entry where
  | directory
  | file (content : Bytes)
  deriving DecidableEq

end FileTree

structure FileTree where
  entries : List (FileTree.Place × FileTree.Entry)
  /-- Where relative paths start. -/
  workDirectory : FileTree.Place

namespace FileTree

def lookup (t : FileTree) (place : Place) : Option Entry :=
  if place = [] then some .directory else t.entries.lookup place

/-- Puts an entry at a place. -/
def put (place : Place) (e : Entry) (t : FileTree) : FileTree :=
  { t with entries := (t.entries.filter fun (p, _) => p ≠ place) ++ [(place, e)] }

def longestName : Nat := 255

/-- The place that a name leads to from a directory. -/
def step (place : Place) (name : String) : Except FileError Place :=
  if name = "." then .ok place
  else if name = ".." then .ok place.dropLast
  else if longestName < name.utf8ByteSize then .error .nameTooLong
  else .ok (place ++ [name])

/-- The place that names lead to. All but the last have to be directories. -/
def follow (t : FileTree) : Place → List String → Except FileError Place
  | place, [] => .ok place
  | place, name :: names =>
    match t.lookup place with
    | none => .error .notFound
    | some (.file _) => .error .notADirectory
    | some .directory => step place name >>= fun next => follow t next names

/-- Where a path starts. -/
def start (t : FileTree) (path : String) : Place :=
  if FilePath.isAbsolute path then [] else t.workDirectory

def longestPath : Nat := 4095

def isTooLong (path : String) : Bool := decide (longestPath < path.utf8ByteSize)

/-- The place of a path and what is there. -/
def find (t : FileTree) (path : String) : Except FileError (Place × Entry) :=
  if path = "" then .error .notFound
  else if isTooLong path then .error .nameTooLong
  else do
    let place ← t.follow (t.start path) (FilePath.steps path)
    match t.lookup place with
    | some e => return (place, e)
    | none => throw .notFound

def read (t : FileTree) (path : String) : Except FileError Bytes := do
  match ← t.find path with
  | (_, .file content) => return content
  | (_, .directory) => throw .isADirectory

def isFile (t : FileTree) (path : String) : Bool := (t.read path).toBool

def isDirectory (t : FileTree) (path : String) : Bool := (t.find path).toOption.any (·.2 = .directory)

/-- The directory with these names below a path can be opened. -/
def canOpen (path : String) (names : List String) : Bool :=
  !isTooLong (names.foldl FilePath.join path)

/-- The files at and below a place that a path leads to. -/
def filesBelow (t : FileTree) (path : String) (place : Place) : List (List String) :=
  (t.entries.filterMap fun
    | (p, .file _) => if place.isPrefixOf p then some (p.drop place.length) else none
    | (_, .directory) => none).filter fun names => canOpen path names.dropLast

def files (t : FileTree) (path : String) : Option (List (List String)) :=
  (t.find path).toOption.map fun (place, _) => t.filesBelow path place

/-- The directory in which the last name of a path is looked up. -/
def directoryOf (t : FileTree) (path : String) : Except FileError Place := do
  if isTooLong path then throw .nameTooLong
  let place ← t.follow (t.start path) (FilePath.names path).dropLast
  match t.lookup place with
  | some .directory => return place
  | some (.file _) => throw .notADirectory
  | none => throw .notFound

/-- Makes a directory where nothing is. -/
def makeDirectory (t : FileTree) (path : String) : Except FileError FileTree := do
  let directory ← t.directoryOf path
  match FilePath.lastName? path with
  | none => throw .alreadyExists
  | some name =>
    let place ← step directory name
    match t.lookup place with
    | some _ => throw .alreadyExists
    | none => return t.put place .directory

/-- Writes a file whose directory is there. -/
def write (t : FileTree) (path : String) (content : Bytes) : Except FileError FileTree := do
  let directory ← t.directoryOf path
  match FilePath.lastName? path, FilePath.endsInSlash path with
  | some name, false =>
    let place ← step directory name
    if t.lookup place = some .directory then throw .isADirectory
    else return t.put place (.file content)
  | _, _ => throw .isADirectory

/-- Does a change unless it fails. -/
def change (attempt : FileTree → Except FileError FileTree) : StateM FileTree (Except FileError Unit) := do
  match attempt (← get) with
  | .ok t =>
    set t
    return .ok ()
  | .error error => return .error error

/-- The tree as a file system. -/
def fileSystem : FileSystem (StateM FileTree) where
  workDirectory := return FilePath.ofNames (← get).workDirectory
  read path := return (← get).read path
  isFile path := return (← get).isFile path
  isDirectory path := return (← get).isDirectory path
  files path := return (← get).files path
  makeDirectory path := change fun t => t.makeDirectory path
  write path content := change fun t => t.write path content

end FileTree

end ApiRules
