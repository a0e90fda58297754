/-!
Why a text is not a signature.
-/
namespace ApiRules

/-- Each cause carries the text it blames. -/
inductive SignatureError where
  | empty
  | invalidOwner (text : String)
  | invalidMember (text : String)
  | invalidType (text : String)
  | unbalancedParams (text : String)
  | invalidDescriptor (text : String)
  deriving DecidableEq, Repr, Inhabited

namespace SignatureError

def message : SignatureError → String
  | empty => "empty signature"
  | invalidOwner text => "invalid owner `" ++ text ++ "`"
  | invalidMember text => "invalid member name `" ++ text ++ "`"
  | invalidType text => "invalid parameter type `" ++ text ++ "`"
  | unbalancedParams text => "unbalanced parameter list in `" ++ text ++ "`"
  | invalidDescriptor text => "invalid JVM descriptor `" ++ text ++ "`"

end SignatureError

end ApiRules
