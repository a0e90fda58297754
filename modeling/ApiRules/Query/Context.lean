import ApiRules.Signature.Error

/-!
What is known about the place that a query asks for.
-/
namespace ApiRules

inductive QueryError where
  | invalidSignature (error : SignatureError)
  | invalidApiLevel (level : Int32)
  | notAMethod (signature : String)
  deriving DecidableEq

namespace QueryError

def message : QueryError → String
  | invalidSignature error => "invalid signature: " ++ error.message
  | invalidApiLevel level => s!"invalid API level {level} (must be at least 1)"
  | notAMethod signature => "`" ++ signature ++ "` is not a method signature"

end QueryError

namespace Query

structure Context where
  /-- The API level that the code is for, if it is known. -/
  apiLevel : Option Int32
  /-- Whether bounds count as exceeded when the level is not known. -/
  strict : Bool
  deriving DecidableEq

namespace Context

/-- The API level, which is at least one. -/
def level (c : Context) : Except QueryError (Option UInt32) :=
  match c.apiLevel with
  | none => .ok none
  | some n => if n < 1 then .error (.invalidApiLevel n) else .ok (some n.toInt.toNat.toUInt32)

end Context

end Query

end ApiRules
