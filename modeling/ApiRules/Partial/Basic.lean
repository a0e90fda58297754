import ApiRules.Constant.Literal
import ApiRules.Dictionary
import ApiRules.Rule.Payload
import ApiRules.Rule.Source

/-!
Partial datasets: what was harvested from one source, before patterns and methods are read.
-/
namespace ApiRules

namespace Partial

structure Record where
  pattern : String
  payload : Payload
  artifact : Option String

structure Typedef where
  method : String
  argument : UInt32
  kind : ConstantKind
  flag : Bool
  constants : List String
  artifact : Option String

end Partial

structure Partial where
  source : Source
  /-- The artifact of what names none of its own. -/
  artifact : Option String
  records : List Partial.Record
  typedefs : List Partial.Typedef
  /-- The literals of constants by their qualified names. -/
  constants : Dictionary

end ApiRules
