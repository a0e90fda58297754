import ApiRules.Query.Finding
import ApiRules.Rule.Encoding

/-!
Findings in JSON.
-/
namespace ApiRules

open Json

namespace Scope

def toJson : Scope → Value
  | exact => .ofMembers [("match", .ofText "exact")]
  | under o => .ofMembers [("match", .ofText "owner_prefix"), ("prefix", .ofText o.text)]

end Scope

namespace Finding

def toJson (f : Finding) : Value :=
  .ofMembers (f.payload.members ++ ("source", .ofText f.source.name) ::
    (optionalMember "artifact" Value.ofText f.artifact ++ [("scope", f.scope.toJson)]))

end Finding

end ApiRules
