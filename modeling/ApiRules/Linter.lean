import ApiRules.Dataset.Load
import ApiRules.Query.Argument
import ApiRules.Query.Lookup

/-!
Linters: what a host keeps for a session. A dataset that does not load disables the linter, which then
answers from the empty dataset.
-/
namespace ApiRules

namespace Dataset

/-- The dataset in a file with this content. A directory opens, but has no bytes to read. -/
def ofFile : Except FileError Archive.Bytes → Except LoadError Dataset
  | .ok bytes => ofBytes bytes
  | .error .isADirectory => .error (.unreadable .noDevice)
  | .error error => .error (.unreadable error)

/-- The entry for a dataset that was loaded. -/
def loadedEntry (path : String) (d : Dataset) : LogEntry :=
  ⟨.info, "rule dataset loaded",
    [("path", path), ("records", toString d.length), ("typedefs", toString d.typedefCount),
      ("digest", (d.digest.map Digest.text).getD "")]⟩

/-- What loading a file reports. -/
def logOfFile (path : String) (content : Except FileError Archive.Bytes) : List LogEntry :=
  let events := match content with
    | .ok bytes => eventsOfBytes bytes
    | .error _ => []
  events.map ConstantEvent.entry ++
    match ofFile content with
    | .ok d => [loadedEntry path d]
    | .error _ => []

end Dataset

inductive LinterStatus where
  | enabled (records : Nat)
  | disabled (reason : String)
  deriving DecidableEq, Repr

namespace LinterStatus

def text : LinterStatus → String
  | enabled records => s!"enabled ({records} rules)"
  | disabled reason => "disabled: " ++ reason

end LinterStatus

structure Linter where
  dataset : Dataset
  status : LinterStatus

namespace Linter

/-- The name under which hosts know the linter. -/
def name : String := "android-linter"

def ofDataset (d : Dataset) : Linter := ⟨d, .enabled d.length⟩

def disabled (reason : String) : Linter := ⟨.empty, .disabled reason⟩

/-- The linter of a dataset file. -/
def ofFile (content : Except FileError Archive.Bytes)
    (diagnosis : Archive.Diagnosis := Archive.undiagnosed) : Linter :=
  match Dataset.ofFile content with
  | .ok d => ofDataset d
  | .error error => disabled (error.message diagnosis)

/-- What making the linter of a file reports. -/
def logOfFile (path : String) (content : Except FileError Archive.Bytes)
    (diagnosis : Archive.Diagnosis := Archive.undiagnosed) : List LogEntry :=
  Dataset.logOfFile path content ++
    match Dataset.ofFile content with
    | .ok _ => []
    | .error error =>
      [⟨.error, "rule dataset failed to load, linting disabled",
        [("plugin", name), ("path", path), ("error", error.message diagnosis)]⟩]

def isEnabled (l : Linter) : Bool :=
  match l.status with
  | .enabled _ => true
  | .disabled _ => false

def findings (l : Linter) (s : Signature) (context : Query.Context) :
    Except QueryError (List Finding) := Query.findings l.dataset s context

/-- The findings for a signature in any of its spellings. -/
def findingsOfText (l : Linter) (text : String) (context : Query.Context) :
    Except QueryError (Signature × List Finding) :=
  match Signature.parse text with
  | .error error => .error (.invalidSignature error)
  | .ok s => (l.findings s context).map (s, ·)

def resolveArgument (l : Linter) (call : Signature) (supertypes : List String) (argument : UInt32)
    (value : Query.Argument) : Except QueryError (Option Query.Resolution) :=
  Query.resolveArgument l.dataset call supertypes argument value

/-- What stands for a literal argument of a method in any of its spellings. -/
def resolveArgumentOfText (l : Linter) (method : String) (supertypes : List String)
    (argument : UInt32) (value : Query.Argument) :
    Except QueryError (Signature × Option Query.Resolution) :=
  match Signature.parse method with
  | .error error => .error (.invalidSignature error)
  | .ok call => (l.resolveArgument call supertypes argument value).map (call, ·)

end Linter

end ApiRules
