import ApiRules.Text.Cut

/-!
Paths of files: names with slashes between them.
-/
namespace ApiRules.FilePath

def isAbsolute (path : String) : Bool := path.toList.head? == some '/'

/-- What stands between the slashes. -/
def pieces (path : String) : List String := (Text.splitOn '/' path.toList).map String.ofList

/-- The path of pieces that are given from the last one to the first. -/
def ofPieces (reversed : List String) : String := String.intercalate "/" reversed.reverse

/-- A piece that leads nowhere else. -/
def isIdle (piece : String) : Bool := piece == "" || piece == "."

/-- The pieces before the last name, from the last one to the first. -/
def piecesBefore (path : String) : List String := ((pieces path).reverse.dropWhile isIdle).tail

/-- The names between the slashes. -/
def names (path : String) : List String := (pieces path).filter (· ≠ "")

/-- The absolute path of a place. -/
def ofNames (names : List String) : String := "/" ++ String.intercalate "/" names

def endsInSlash (path : String) : Bool := path.toList.getLast? == some '/'

/-- The names to follow. A slash at the end asks for a directory, as a dot after it does. -/
def steps (path : String) : List String :=
  names path ++ if endsInSlash path then ["."] else []

/-- The last name, unless it stands for a directory by its place. -/
def lastName? (path : String) : Option String :=
  (names path).getLast?.filter fun name => name ≠ "." ∧ name ≠ ".."

/-- A path that goes on with one more name. -/
def join (path name : String) : String :=
  if path = "" ∨ endsInSlash path then path ++ name else path ++ "/" ++ name

/-- What stands after the last dot of a file name, if something stands before it. -/
def extension? (name : String) : Option String :=
  match Text.cutLast? '.' name.toList with
  | some (stem, extension) =>
    if stem ≠ [] ∧ name ≠ ".." then some (String.ofList extension) else none
  | none => none

end ApiRules.FilePath
