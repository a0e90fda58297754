import ApiRules.Text.Cut
import ApiRules.Text.Number

/-!
Command line arguments. Options are written `--name value` or `--name=value`; after `--` every argument is
an operand. A program may have subcommands, which read the arguments after their name.
-/
namespace ApiRules.Command

open Text

/-- A number of 32 bits with a sign. -/
def int32? (s : String) : Option Int32 :=
  (signedWord? 32 s.toList).map Int32.ofInt

/-- A number of 32 bits without a sign; a plus sign or the sign of a zero may stand in front. -/
def word32? (s : String) : Option UInt32 :=
  ((integer? s.toList).filter fun n : Int => 0 ≤ n ∧ n < wordCount 32).map fun n => UInt32.ofNat n.toNat

/-- What a value has to be. -/
inductive ValueKind where
  | text
  | path
  | int32
  | word32
  deriving DecidableEq, Repr

namespace ValueKind

def accepts : ValueKind → String → Bool
  | text, _ => true
  | path, s => s ≠ ""
  | int32, s => (int32? s).isSome
  | word32, s => (word32? s).isSome

end ValueKind

structure OptionSpec where
  name : String
  /-- What the value has to be, if the option takes one. -/
  value : Option ValueKind
  /-- A value may start with a hyphen. -/
  hyphens : Bool
  /-- The option may be given more than once. -/
  repeatable : Bool
  deriving DecidableEq, Repr

namespace OptionSpec

def switch (name : String) : OptionSpec := ⟨name, none, false, false⟩

def single (name : String) (kind : ValueKind) : OptionSpec := ⟨name, some kind, false, false⟩

/-- The option with values that may start with a hyphen. -/
def withHyphens (o : OptionSpec) : OptionSpec := { o with hyphens := true }

def repeated (o : OptionSpec) : OptionSpec := { o with repeatable := true }

end OptionSpec

/-- What a program or a subcommand takes. -/
structure Spec where
  options : List OptionSpec
  operands : List ValueKind
  subcommands : List String
  deriving DecidableEq, Repr

/-- What was given, in its order. A switch is given with an empty value. -/
structure Given where
  options : List (String × String)
  operands : List String
  deriving DecidableEq, Repr

namespace Given

def none : Given := ⟨[], []⟩

def has (g : Given) (name : String) : Bool := g.options.any fun (n, _) => n == name

def value? (g : Given) (name : String) : Option String := g.options.lookup name

def values (g : Given) (name : String) : List String :=
  (g.options.filter fun (n, _) => n == name).map Prod.snd

end Given

inductive Reading where
  | complete (given : Given)
  | subcommand (given : Given) (name : String) (rest : List String)
  | help
  | invalid
  deriving DecidableEq, Repr

/-- What an argument says by its hyphens. -/
inductive Token where
  | separator
  | long (name : String) (value : Option String)
  | short (letters : List Char)
  | plain

namespace Token

def ofArgument (arg : String) : Token :=
  match arg.toList with
  | ['-', '-'] => separator
  | '-' :: '-' :: cs =>
    match cut? '=' cs with
    | some (name, value) => long (String.ofList name) (some (String.ofList value))
    | none => long (String.ofList cs) none
  | '-' :: c :: cs => short (c :: cs)
  | _ => plain

end Token

namespace Spec

/-- Where reading stands. -/
structure State where
  given : Given
  /-- The option whose value comes next. -/
  awaiting : Option OptionSpec
  /-- Only operands are left. -/
  separated : Bool

/-- What one argument leads to. -/
inductive Step where
  | next (state : State)
  | enter (given : Given) (subcommand : String)
  | help
  | invalid

/-- Notes an option. -/
def giveOption (st : State) (o : OptionSpec) (kind : ValueKind) (value : String) : Step :=
  if kind.accepts value ∧ (o.repeatable ∨ ¬st.given.has o.name) then
    .next { st with
      given := { st.given with options := st.given.options ++ [(o.name, value)] }
      awaiting := none }
  else .invalid

/-- Notes an operand. -/
def giveOperand (spec : Spec) (st : State) (value : String) : Step :=
  match spec.operands[st.given.operands.length]? with
  | some kind =>
    if kind.accepts value then
      .next { st with given := { st.given with operands := st.given.operands ++ [value] } }
    else .invalid
  | none => .invalid

def readLong (spec : Spec) (st : State) (name : String) (value : Option String) : Step :=
  match spec.options.find? fun o => o.name == name, value with
  | some o, some v =>
    match o.value with
    | some kind => giveOption st o kind v
    | none => .invalid
  | some o, none =>
    match o.value with
    | some _ => .next { st with awaiting := some o }
    | none => giveOption st o .text ""
  | none, none => if name = "help" then .help else .invalid
  | none, some _ => .invalid

/-- Reads an argument that is not the value of the option before it. -/
def readFree (spec : Spec) (st : State) (arg : String) : Step :=
  if st.separated then spec.giveOperand st arg
  else if arg ∈ spec.subcommands then .enter st.given arg
  else match Token.ofArgument arg with
    | .separator => .next { st with separated := true }
    | .long name value => spec.readLong st name value
    | .short letters => if letters.head? = some 'h' then .help else .invalid
    | .plain => spec.giveOperand st arg

def readValue (st : State) (o : OptionSpec) (arg : String) : Step :=
  match o.hyphens, Token.ofArgument arg, o.value with
  | true, _, some kind => giveOption st o kind arg
  | false, .plain, some kind => giveOption st o kind arg
  | _, _, _ => .invalid

def step (spec : Spec) (st : State) (arg : String) : Step :=
  match st.awaiting with
  | some o => readValue st o arg
  | none => spec.readFree st arg

def readFrom (spec : Spec) : State → List String → Reading
  | st, [] => if st.awaiting.isSome then .invalid else .complete st.given
  | st, arg :: args =>
    match spec.step st arg with
    | .next st => spec.readFrom st args
    | .enter given name => .subcommand given name args
    | .help => .help
    | .invalid => .invalid

def read (spec : Spec) (args : List String) : Reading := spec.readFrom ⟨.none, none, false⟩ args

end Spec

end ApiRules.Command
