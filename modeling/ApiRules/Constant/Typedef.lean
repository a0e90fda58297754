import ApiRules.Constant.Name
import ApiRules.Log
import ApiRules.Table

/-!
Declared constants joined with their values. A constant without a well-formed name or a readable
value is left out, and an event says so.
-/
namespace ApiRules

/-- Named values in the order of their declaration. -/
inductive NamedValues where
  | integers (values : List (Int64 × ConstantName))
  | texts (values : List (String × ConstantName))
  deriving DecidableEq

namespace NamedValues

def names : NamedValues → List ConstantName
  | integers values => values.map Prod.snd
  | texts values => values.map Prod.snd

def length (v : NamedValues) : Nat := v.names.length

end NamedValues

/-- The constants that an argument takes, with their values. -/
structure Typedef where
  argument : UInt32
  kind : ConstantKind
  flag : Bool
  values : NamedValues
  source : Source
  artifact : Option String
  deriving DecidableEq

/-- Why a declared constant has no value. -/
inductive ConstantEvent where
  | badName (constant method : String)
  | noValue (constant method : String)
  | badValue (constant value : String)
  deriving DecidableEq, Repr

namespace ConstantEvent

def entry : ConstantEvent → LogEntry
  | badName constant method =>
    ⟨.warn, "ignored invalid constant name", [("constant", constant), ("method", method)]⟩
  | noValue constant method =>
    ⟨.warn, "no constant value found", [("constant", constant), ("method", method)]⟩
  | badValue constant value =>
    ⟨.warn, "invalid constant value", [("constant", constant), ("value", value)]⟩

end ConstantEvent

namespace Table

/-- The literal of a constant; of several rows with the name the last counts. -/
def constant? (constants : List Constant) (name : String) : Option String :=
  (constants.reverse.find? fun c => c.name == name).map Constant.value

namespace Typedef

/-- The well-formed name and the literal of a declared constant. -/
def literal (constants : List Constant) (method qualified : String) :
    Except ConstantEvent (ConstantName × String) :=
  match ConstantName.parse? qualified with
  | none => .error (.badName qualified method)
  | some name =>
    match constant? constants qualified with
    | none => .error (.noValue qualified method)
    | some value => .ok (name, value)

def integer (constants : List Constant) (t : Typedef) (qualified : String) :
    Except ConstantEvent (Int64 × ConstantName) := do
  let (name, raw) ← literal constants t.method qualified
  match Literal.parse? raw t.kind with
  | some value => return (value, name)
  | none => throw (.badValue qualified raw)

def textValue (constants : List Constant) (t : Typedef) (qualified : String) :
    Except ConstantEvent (String × ConstantName) := do
  let (name, raw) ← literal constants t.method qualified
  return (raw, name)

/-- The results that came about. -/
def results {ε α : Type} (xs : List (Except ε α)) : List α :=
  xs.filterMap Except.toOption

/-- The errors among the results. -/
def errors {ε α : Type} (xs : List (Except ε α)) : List ε :=
  xs.filterMap fun
    | .ok _ => none
    | .error e => some e

/-- The declaration with the values that its constants have. -/
def resolve (constants : List Constant) (t : Typedef) : ApiRules.Typedef where
  argument := t.argument
  kind := t.kind
  flag := t.flag
  values := match t.kind with
    | .text => .texts (results (t.constants.map (t.textValue constants)))
    | _ => .integers (results (t.constants.map (t.integer constants)))
  source := t.source
  artifact := t.artifact

/-- What resolving the declaration reports. -/
def events (constants : List Constant) (t : Typedef) : List ConstantEvent :=
  match t.kind with
  | .text => errors (t.constants.map (t.textValue constants))
  | _ => errors (t.constants.map (t.integer constants))

end Typedef

end Table

end ApiRules
