import ApiRules.Constant.Literal
import ApiRules.Rule.Payload
import ApiRules.Rule.Source

/-!
Tables: a rule dataset as it is stored. Patterns and methods are texts here; nothing is checked
before a table is loaded.
-/
namespace ApiRules

namespace Table

structure Rule where
  payload : Payload
  artifact : Option String
  deriving DecidableEq, Repr

/-- All rules of one pattern. -/
structure Entry where
  pattern : String
  rules : List Rule
  deriving DecidableEq, Repr

/-- All entries of one source. -/
structure Group where
  source : Source
  entries : List Entry
  deriving DecidableEq, Repr

/-- The named constants that one argument of a method takes. -/
structure Typedef where
  method : String
  argument : UInt32
  kind : ConstantKind
  flag : Bool
  constants : List String
  source : Source
  artifact : Option String
  deriving DecidableEq, Repr

/-- The literal of a constant. -/
structure Constant where
  name : String
  value : String
  deriving DecidableEq, Repr

end Table

structure Table where
  groups : List Table.Group
  typedefs : List Table.Typedef
  constants : List Table.Constant
  deriving DecidableEq, Repr

namespace Table

def empty : Table := ⟨[], [], []⟩

def recordCount (t : Table) : Nat :=
  (t.groups.flatMap fun g => g.entries.flatMap Entry.rules).length

end Table

end ApiRules
