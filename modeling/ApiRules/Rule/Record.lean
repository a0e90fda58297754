import ApiRules.Pattern
import ApiRules.Rule.Payload
import ApiRules.Rule.Source

/-!
Records: a rule with the pattern it is about and where it comes from.
-/
namespace ApiRules

structure Record where
  pattern : Pattern
  payload : Payload
  source : Source
  artifact : Option String
  deriving DecidableEq

namespace Record

def kind (r : Record) : Kind := r.payload.kind

end Record

end ApiRules
