import ApiRules.Command.Invocation
import ApiRules.Command.Outcome
import ApiRules.Container
import ApiRules.FilePath
import ApiRules.FileSystem
import ApiRules.Merge.Basic
import ApiRules.Partial.Encoding

/-!
Baking as a program: the partial datasets below a directory are merged into one container.
-/
namespace ApiRules.Command.Bake

variable {m : Type → Type} [Monad m]

/-- The name of a file below a root, or of the root itself. -/
def fileName (root : String) (names : List String) : String :=
  (names.getLast?.or (FilePath.names root).getLast?).getD ""

def isJsonFile (root : String) (names : List String) : Bool :=
  FilePath.extension? (fileName root names) == some "json"

/-- The JSON files below a root, in the order of their names from the root. -/
def jsonFiles (root : String) (files : List (List String)) : List String :=
  ((files.filter (isJsonFile root)).mergeSort fun a b => (compare a b).isLE).map
    (List.foldl FilePath.join root)

def readPartial (fs : FileSystem m) (path : String) : m (Except CommandError Partial) := do
  match ← fs.readText path with
  | .error error => return .error (.unreadablePartial path error)
  | .ok text =>
    match Partial.parse? text with
    | some p => return .ok p
    | none => return .error (.badPartial path)

/-- Reads files up to the first that is not good. -/
def readPartials (fs : FileSystem m) : List String → m (Except CommandError (List Partial))
  | [] => return .ok []
  | path :: paths => do
    match ← readPartial fs path with
    | .error error => return .error error
    | .ok p => return (← readPartials fs paths).map (p :: ·)

def doneLines (output : String) (report : MergeReport) (digest : Digest) : List String :=
  [report.text, s!"Successfully compiled {output} with {report.records} rules (sha256 {digest.text})."]

/-- Writes the container of a table. -/
def save (fs : FileSystem m) (output : String) (merged : Merged) : m Ending := do
  match Container.encode? merged.table with
  | none => return .failed (.tooLarge output)
  | some bytes =>
    match ← fs.save output bytes with
    | .error error => return .failed (.unwritable output error)
    | .ok () =>
      return .done (doneLines output merged.report
        (Digest.ofPayload (bytes.drop Container.headerSize)))

def missingEntry (input : String) : LogEntry :=
  ⟨.warn, "input directory not found, writing an empty dataset", [("path", input)]⟩

def processingEntry (path : String) : LogEntry := ⟨.info, "processing", [("path", path)]⟩

/-- Merges partial datasets and writes the result. -/
def bake (fs : FileSystem m) (output : String) (log : List LogEntry) (ps : List Partial) :
    m Outcome := do
  let merged := merge ps
  return ⟨← save fs output merged, log ++ merged.events.map MergeEvent.entry⟩

def runWith (fs : FileSystem m) (invocation : BakeInvocation) : m Outcome := do
  match ← fs.files invocation.input with
  | none => bake fs invocation.output [missingEntry invocation.input] []
  | some files =>
    let paths := jsonFiles invocation.input files
    let log := paths.map processingEntry
    match ← readPartials fs paths with
    | .error error => return ⟨.failed error, log⟩
    | .ok ps => bake fs invocation.output log ps

def run (fs : FileSystem m) (args : List String) : m Outcome :=
  match BakeInvocation.read args with
  | .help => return ⟨.help, []⟩
  | .invalid => return ⟨.invalidArguments, []⟩
  | .run invocation => runWith fs invocation

end ApiRules.Command.Bake
