import ApiRules.Command.DotEnv
import ApiRules.Command.Invocation
import ApiRules.Command.Outcome
import ApiRules.Command.Report
import ApiRules.FilePath
import ApiRules.FileSystem

/-!
The linter as a program.
-/
namespace ApiRules.Command.Lint

variable {m : Type → Type} [Monad m]

/-- The places where a file of variables may be: a directory and those around it. -/
def dotEnvPaths (directory : String) : List String :=
  let names := FilePath.names directory
  (List.range (names.length + 1)).reverse.map fun n => FilePath.join (FilePath.ofNames (names.take n)) ".env"

/-- The environment with the variables of the first file there is. -/
def loadDotEnv (fs : FileSystem m) (env : Environment) : List String → m Environment
  | [] => return env
  | path :: paths => do
    if ← fs.isFile path then
      match ← fs.readText path with
      | .ok content => return DotEnv.load env content
      | .error _ => return env
    else loadDotEnv fs env paths

/-- A user's cached copy if there is one, else the dataset that comes with the program. -/
def defaultDataset (fs : FileSystem m) (env : Environment) : m String := do
  match env.cachedDataset? with
  | some path => return if ← fs.isFile path then path else Config.packagedDataset
  | none => return Config.packagedDataset

def inactiveEntries (l : Linter) : List LogEntry :=
  if l.isEnabled then []
  else [⟨.warn, "linter inactive, every query reports no findings", [("status", l.status.text)]⟩]

def invalidLineEntries (file : String) (c : CheckedLine) : List LogEntry :=
  match c.findings with
  | .ok _ => []
  | .error error =>
    [⟨.error, "invalid signature",
      [("file", file), ("line", toString c.number), ("error", error.message)]⟩]

/-- What the lines of a file report, one line after another, to one tracker. -/
def checkEntries (file : String) : Tracker → List CheckedLine → List LogEntry
  | _, [] => []
  | t, c :: cs =>
    let next := t.observeFindings c.found
    invalidLineEntries file c ++ (next.events.drop t.events.length).map DependencyEvent.entry ++
      checkEntries file next cs

def lookup (l : Linter) (config : Config) (text : String) (json : Bool) : Ending :=
  match l.findingsOfText text config.context with
  | .error error => .failed (.query error)
  | .ok (s, fs) => .done (if json then Report.findingsJson fs else Report.findings s fs)

def check (fs : FileSystem m) (l : Linter) (config : Config) (file : String) : m Outcome := do
  match ← fs.readText file with
  | .error error => return ⟨.failed (.unreadable file error), []⟩
  | .ok content =>
    let cs := Check.lines l config.context content
    return ⟨.done (Report.check file cs), checkEntries file .empty cs⟩

def resolve (l : Linter) (method : String) (argument : UInt32) (value : String)
    (supertypes : List String) : Ending :=
  match l.resolveArgumentOfText method supertypes argument (.parse value) with
  | .error error => .failed (.query error)
  | .ok (call, resolution) => .done (Report.resolution call argument resolution)

def answer (fs : FileSystem m) (l : Linter) (config : Config) : LintCommand → m Outcome
  | .lookup text json => return ⟨lookup l config text json, []⟩
  | .check file => check fs l config file
  | .resolve method argument value supertypes =>
    return ⟨resolve l method argument value supertypes, []⟩
  | .stats => return ⟨.done (Report.stats config.dataset l), []⟩

/-- Answers with the linter of the configured dataset. -/
def runWith (fs : FileSystem m) (config : Config) (command : LintCommand)
    (diagnosis : Archive.Diagnosis := Archive.undiagnosed) : m Outcome := do
  let content ← fs.read config.dataset
  let l := Linter.ofFile content diagnosis
  let outcome ← answer fs l config command
  return { outcome with
    log := Linter.logOfFile config.dataset content diagnosis ++ inactiveEntries l ++ outcome.log }

def run (fs : FileSystem m) (env : Environment) (args : List String)
    (diagnosis : Archive.Diagnosis := Archive.undiagnosed) : m Outcome := do
  let env ← loadDotEnv fs env (dotEnvPaths (← fs.workDirectory))
  match LintInvocation.read args with
  | .help => return ⟨.help, []⟩
  | .invalid => return ⟨.invalidArguments, []⟩
  | .run invocation =>
    match Config.resolve invocation.overrides env (← defaultDataset fs env) with
    | .error error => return ⟨.failed (.config error), []⟩
    | .ok config => runWith fs config invocation.command diagnosis

end ApiRules.Command.Lint
