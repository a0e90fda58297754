import ApiRules.Rule.Kind

/-!
What a rule says.
-/
namespace ApiRules

/-- How access is restricted. -/
inductive Visibility where
  | hidden
  | testOnly
  | conditional (maxTargetApi : Option UInt32)
  deriving DecidableEq, Repr, Inhabited

namespace Visibility

def text : Visibility → String
  | hidden => "hidden API (@hide)"
  | testOnly => "test-only API"
  | conditional none => "conditionally accessible"
  | conditional (some level) => "accessible up to target API level " ++ toString level

end Visibility

inductive Payload where
  | deprecated (replacement : Option String)
  | removed (since : Option UInt32)
  | restrictedVisibility (visibility : Visibility)
  | minApiLevel (level : UInt32)
  | maxApiLevel (level : UInt32)
  | sinceVersion (version : String)
  deriving DecidableEq, Repr, Inhabited

namespace Payload

def kind : Payload → Kind
  | deprecated _ => .deprecated
  | removed _ => .removed
  | restrictedVisibility _ => .restrictedVisibility
  | minApiLevel _ => .minApiLevel
  | maxApiLevel _ => .maxApiLevel
  | sinceVersion _ => .sinceVersion

/-- The level of an API bound. -/
def bound? : Payload → Option UInt32
  | minApiLevel level => some level
  | maxApiLevel level => some level
  | _ => none

def text : Payload → String
  | deprecated none => "deprecated"
  | deprecated (some replacement) => "deprecated, use " ++ replacement ++ " instead"
  | removed none => "removed"
  | removed (some level) => "removed in API level " ++ toString level
  | restrictedVisibility v => "restricted: " ++ v.text
  | minApiLevel level => "requires API level " ++ toString level
  | maxApiLevel level => "not available above API level " ++ toString level
  | sinceVersion version => "added in " ++ version

end Payload

end ApiRules
