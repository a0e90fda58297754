import ApiRules.Signature.Basic
import ApiRules.Signature.Descriptor

/-!
Reading signatures. Owners may be dotted, slashed or descriptors; parameters may be source types or
a method descriptor.
-/
namespace ApiRules

open Text

/-- Puts a character in front of the first part. -/
def extendFirst (c : Char) : List (List Char) → List (List Char)
  | [] => [[c]]
  | part :: parts => (c :: part) :: parts

/-- The parts of a parameter list at the commas outside angle brackets, `depth` brackets being open
where the text starts. There are none when the brackets do not balance, or when too many are open to count them. -/
def splitParams? (depth : Int32) : List Char → Option (List (List Char))
  | [] => if depth = 0 then some [[]] else none
  | c :: cs =>
    if c = ',' ∧ depth = 0 then (splitParams? depth cs).map ([] :: ·)
    else match Nesting.next? depth c with
      | none => none
      | some next => (splitParams? next cs).map (extendFirst c)

theorem splitParams?_cons {depth next : Int32} {c : Char} (hcomma : ¬(c = ',' ∧ depth = 0))
    (hnext : Nesting.next? depth c = some next) (cs : List Char) :
    splitParams? depth (c :: cs) = (splitParams? next cs).map (extendFirst c) := by
  rw [splitParams?, if_neg hcomma, hnext]

/-- The parts of the source parameter list `inner` of the signature `whole`. -/
def sourceParams (inner whole : List Char) : Except SignatureError (List (List Char)) :=
  if isBlankText inner then .ok []
  else match splitParams? 0 inner with
    | some parts => .ok parts
    | none => .error (.unbalancedParams (String.ofList whole))

namespace Member

/-- Reads the member part of the signature `whole`. Text after the closing parenthesis is the result
of a method descriptor. -/
def parse (raw whole : List Char) : Except SignatureError Member :=
  match cut? '(' raw with
  | none => do return .field (← MemberName.parse raw)
  | some (name, rest) =>
    match cutLast? ')' rest with
    | none => .error (.unbalancedParams (String.ofList whole))
    | some (inner, tail) => do
      let name ← MemberName.parse name
      if isBlankText tail then
        let parts ← sourceParams inner whole
        return .method name (← parts.mapM TypeName.parse)
      else
        return .method name (← Descriptor.params inner (trim tail))

end Member

namespace Signature

/-- The signature of a class. -/
def ofClass (owner : String) : Except SignatureError Signature := do
  return ⟨← Owner.parse owner.toList, none⟩

/-- The signature of a field. -/
def ofField (owner name : String) : Except SignatureError Signature := do
  let owner ← Owner.parse owner.toList
  return ⟨owner, some (.field (← MemberName.parse name.toList))⟩

/-- The signature of a method with source parameter types. -/
def ofMethod (owner name : String) (params : List String) : Except SignatureError Signature := do
  let params ← params.mapM fun p => TypeName.parse p.toList
  let owner ← Owner.parse owner.toList
  return ⟨owner, some (.method (← MemberName.parse name.toList) params)⟩

def ofChars (raw : List Char) : Except SignatureError Signature :=
  let cs := trim raw
  if cs = [] then .error .empty
  else match cut? '#' cs with
    | none => do return ⟨← Owner.parse cs, none⟩
    | some (owner, member) => do
      let owner ← Owner.parse owner
      return ⟨owner, some (← Member.parse (trim member) cs)⟩

/-- Reads any accepted spelling. -/
def parse (text : String) : Except SignatureError Signature := ofChars text.toList

/-- The same member on another owner. -/
def withOwner (s : Signature) (owner : String) : Except SignatureError Signature := do
  return { s with owner := ← Owner.parse owner.toList }

end Signature

end ApiRules
