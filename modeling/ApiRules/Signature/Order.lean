import ApiRules.Signature.Basic

/-!
The order of signatures: by owner; on one owner the class first, then fields, then methods; then by
name, then by parameters from the left.
-/
namespace ApiRules

namespace Signature

/-- Where the kind of member stands. -/
def rank (s : Signature) : Nat :=
  match s.member with
  | none => 0
  | some (.field _) => 1
  | some (.method _ _) => 2

/-- The name and the parameters, as they are compared. -/
def words (s : Signature) : List (List Char) :=
  match s.member with
  | none => []
  | some (.field name) => [name.chars]
  | some (.method name params) => name.chars :: params.map TypeName.chars

protected def compare (a b : Signature) : Ordering :=
  (a.owner.compare b.owner).then ((compare a.rank b.rank).then (compare a.words b.words))

end Signature

end ApiRules
