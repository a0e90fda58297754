import ApiRules.Command.Arguments
import ApiRules.Config

/-!
What the two programs can be asked to do.
-/
namespace ApiRules.Command

/-- What the arguments of a program say. -/
inductive Request (α : Type) where
  | run (invocation : α)
  | help
  | invalid

namespace Request

def ofOption {α : Type} : Option α → Request α
  | some a => run a
  | none => invalid

end Request

/-- What the linter is asked. -/
inductive LintCommand where
  | lookup (signature : String) (json : Bool)
  | check (file : String)
  | resolve (method : String) (argument : UInt32) (value : String) (supertypes : List String)
  | stats
  deriving DecidableEq, Repr

structure LintInvocation where
  overrides : Overrides
  command : LintCommand

namespace LintInvocation

def datasetOption : OptionSpec := .single "dataset" .path

def queryOptions : List OptionSpec :=
  [(OptionSpec.single "api-level" .int32).withHyphens, .switch "strict"]

/-- The subcommands and what each takes. -/
def commands : List (String × Spec) :=
  [("lookup", ⟨datasetOption :: .switch "json" :: queryOptions, [.text], []⟩),
    ("check", ⟨datasetOption :: queryOptions, [.path], []⟩),
    ("resolve", ⟨[datasetOption, .single "arg" .word32, (OptionSpec.single "value" .text).withHyphens,
      (OptionSpec.single "supertype" .text).repeated], [.text], []⟩),
    ("stats", ⟨[datasetOption], [], []⟩)]

def spec : Spec := ⟨[datasetOption], [], "help" :: commands.map Prod.fst⟩

def usage : List String :=
  ["Usage: apilint [--dataset PATH] COMMAND",
    "  lookup SIGNATURE [--api-level N] [--strict] [--json]",
    "  check FILE [--api-level N] [--strict]",
    "  resolve METHOD --arg N --value V [--supertype T]...",
    "  stats"]

/-- The command of a subcommand's arguments, if nothing is missing. -/
def command? (name : String) (g : Given) : Option LintCommand :=
  match name, g.operands with
  | "lookup", [signature] => some (.lookup signature (g.has "json"))
  | "check", [file] => some (.check file)
  | "resolve", [method] => do
    let argument ← g.value? "arg" >>= word32?
    let value ← g.value? "value"
    return .resolve method argument value (g.values "supertype")
  | "stats", [] => some .stats
  | _, _ => none

/-- The overrides in the arguments of the program and of its subcommand; the latter come first. -/
def overridesOf (outer inner : Given) : Overrides where
  dataset := (inner.value? "dataset").or (outer.value? "dataset")
  apiLevel := inner.value? "api-level" >>= int32?
  strict := if inner.has "strict" then some true else none

/-- Help is there for the program and for each subcommand. -/
def readHelp : List String → Request LintInvocation
  | [] => .help
  | [name] => if name ∈ spec.subcommands then .help else .invalid
  | _ => .invalid

def readCommand (outer : Given) (name : String) (args : List String) : Request LintInvocation :=
  match commands.lookup name with
  | none => readHelp args
  | some spec =>
    match spec.read args with
    | .complete inner => .ofOption ((command? name inner).map fun c => ⟨overridesOf outer inner, c⟩)
    | .help => .help
    | _ => .invalid

def read (args : List String) : Request LintInvocation :=
  match spec.read args with
  | .subcommand outer name rest => readCommand outer name rest
  | .help => .help
  | _ => .invalid

end LintInvocation

/-- What is baked, and where to. -/
structure BakeInvocation where
  input : String
  output : String
  deriving DecidableEq, Repr

namespace BakeInvocation

def spec : Spec := ⟨[.single "input" .path, .single "output" .path], [], []⟩

def usage : List String := ["Usage: rules-bake [--input DIR] [--output FILE]"]

def read (args : List String) : Request BakeInvocation :=
  match spec.read args with
  | .complete g =>
    .run ⟨(g.value? "input").getD "rules", (g.value? "output").getD Config.packagedDataset⟩
  | .help => .help
  | _ => .invalid

end BakeInvocation

end ApiRules.Command
