import ApiRules.Text.Cut

/-!
Qualified names of constants: an owner and a name with a dot between them.
-/
namespace ApiRules

structure ConstantName where
  owner : String
  name : String
  deriving DecidableEq, Repr, Inhabited

namespace ConstantName

/-- The parts on the two sides of the last dot, neither of them empty. -/
def parse? (qualified : String) : Option ConstantName :=
  match Text.cutLast? '.' qualified.toList with
  | some (owner, name) =>
    if owner ≠ [] ∧ name ≠ [] then some ⟨String.ofList owner, String.ofList name⟩ else none
  | none => none

def text (c : ConstantName) : String := c.owner ++ "." ++ c.name

/-- The owner without what stands before its last dot. -/
def simpleOwner (c : ConstantName) : String :=
  match Text.cutLast? '.' c.owner.toList with
  | some (_, simple) => String.ofList simple
  | none => c.owner

/-- The name as it is written in code that imports the owner. -/
def short (c : ConstantName) : String := c.simpleOwner ++ "." ++ c.name

end ConstantName

end ApiRules
