import ApiRules.Dataset.Basic
import ApiRules.Query.Context
import ApiRules.Signature.Parse

/-!
Named constants for a literal argument. The first owner that declares constants for the argument
decides, the called one before its supertypes. A value that no constant has may be a union of flags.
-/
namespace ApiRules.Query

/-- A literal in a call. -/
inductive Argument where
  | integer (value : Int64)
  | text (value : String)
  deriving DecidableEq

/-- Integers as in a `long` literal, anything else as text. -/
def Argument.parse (raw : String) : Argument :=
  match Literal.parse? raw .long with
  | some value => integer value
  | none => text raw

/-- What stands for a literal. -/
inductive Replacement where
  | constant (name : ConstantName)
  | flags (value : Int64) (names : List ConstantName) (remainder : Option Int64)
  deriving DecidableEq

namespace Replacement

def text : Replacement → String
  | constant name => name.short
  | flags value names remainder =>
    let parts := names.map ConstantName.short ++ remainder.toList.map toString
    toString value ++ " = (" ++ String.intercalate " | " parts ++ ")"

end Replacement

structure Resolution where
  replacement : Replacement
  /-- The method that declares the constants. -/
  declaredOn : Signature
  source : Source
  artifact : Option String
  deriving DecidableEq

/-- Adds a flag that the value contains, if it has a bit that the flags before it lack. -/
def addFlag (value : Int64) (taken : Int64 × List ConstantName) (flag : Int64 × ConstantName) :
    Int64 × List ConstantName :=
  if flag.1 = 0 ∨ value &&& flag.1 ≠ flag.1 ∨ flag.1 &&& ~~~taken.1 = 0 then taken
  else (taken.1 ||| flag.1, taken.2 ++ [flag.2])

/-- The value as a union of flags, and the bits that no flag covers. -/
def unfoldFlags (flags : List (Int64 × ConstantName)) (value : Int64) : Option Replacement :=
  let (bits, names) := flags.foldl (addFlag value) (0, [])
  let rest := value &&& ~~~bits
  if names = [] then none
  else some (.flags value names (if rest = 0 then none else some rest))

/-- The first name with this value. -/
def nameOf? {α : Type} [DecidableEq α] (values : List (α × ConstantName)) (value : α) :
    Option ConstantName :=
  (values.find? fun (v, _) => v = value).map Prod.snd

def replacement? (t : Typedef) (value : Argument) : Option Replacement :=
  match t.values, value with
  | .texts values, .text s => (nameOf? values s).map .constant
  | .integers values, .integer n =>
    let n := t.kind.coerce n
    match nameOf? values n with
    | some name => some (.constant name)
    | none => if t.flag then unfoldFlags values n else none
  | _, _ => none

/-- The first of these methods that declares constants for the argument, and its declaration. -/
def declaration? (d : Dataset) (argument : UInt32) (methods : List Signature) :
    Option (Signature × Typedef) :=
  methods.findSome? fun m => (d.typedef? m argument).map (m, ·)

/-- The method on another owner. -/
def onOwner (call : Signature) (owner : String) : Except QueryError Signature :=
  match call.withOwner owner with
  | .ok s => .ok s
  | .error e => .error (.invalidSignature e)

/-- What stands for a literal argument of a call. All supertypes have to be owners, whether or not they
are needed. -/
def resolveArgument (d : Dataset) (call : Signature) (supertypes : List String)
    (argument : UInt32) (value : Argument) : Except QueryError (Option Resolution) :=
  if call.isMethod then do
    let owners ← supertypes.mapM (onOwner call)
    return (declaration? d argument (call :: owners)).bind fun (m, t) =>
      (replacement? t value).map fun r => ⟨r, m, t.source, t.artifact⟩
  else .error (.notAMethod call.text)

end ApiRules.Query
