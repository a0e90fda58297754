import ApiRules.Json.Value
import ApiRules.Word

/-!
The parts of a composite JSON value. A value with fields may be an object, whose members are found by
name, or an array, whose items are the fields in a fixed order. A field that comes twice is an error;
a member that is no field is passed over.
-/
namespace ApiRules.Json

/-- Containers may stand in one another this deep. -/
def nestingLimit : Nat := 127

inductive Parts where
  | named (members : List (Literal × Value))
  | listed (items : List Value)

namespace Parts

/-- The parts of an object whose keys are texts. -/
def ofObject? : Value → Option Parts
  | .object members => if members.all fun (k, _) => k.isSome then some (named members) else none
  | _ => none

def ofValue? : Value → Option Parts
  | .array items => some (listed items)
  | v => ofObject? v

/-- A field by its name or its place; the inner option is empty if the field is missing. -/
def get? (parts : Parts) (name : String) (place : Nat) : Option (Option Value) :=
  match parts with
  | listed items => some items[place]?
  | named members =>
    match members.filter fun (k, _) => k == some name with
    | [] => some none
    | [(_, v)] => some (some v)
    | _ => none

/-- No items are left over after the first `n`. -/
def fits (parts : Parts) (n : Nat) : Bool :=
  match parts with
  | listed items => items.length ≤ n
  | named _ => true

/-- A field that has to be there. -/
def required (parts : Parts) (name : String) (place : Nat) (read? : Value → Option α) : Option α := do
  let field ← parts.get? name place
  read? (← field)

/-- A field that may be missing or `null`. -/
def optional (parts : Parts) (name : String) (place : Nat) (read? : Value → Option α) :
    Option (Option α) := do
  match ← parts.get? name place with
  | none => return none
  | some .null => return none
  | some v => return some (← read? v)

/-- A field with a value for when it is missing. -/
def orElse (parts : Parts) (name : String) (place : Nat) (missing : α) (read? : Value → Option α) :
    Option α := do
  match ← parts.get? name place with
  | none => return missing
  | some v => read? v

end Parts

namespace Value

def text? : Value → Option String
  | string s => s
  | _ => none

def bool? : Value → Option Bool
  | bool b => some b
  | _ => none

def nat? : Value → Option Nat
  | number n => n.toNat?
  | _ => none

/-- A number of 32 bits without a sign. -/
def word? (v : Value) : Option UInt32 := (v.nat?.filter (· < wordCount 32)).map UInt32.ofNat

def list? (read? : Value → Option α) : Value → Option (List α)
  | array items => items.mapM read?
  | _ => none

/-- A name of an enumeration: a text, or an object with this one key and `null`. -/
def enumName? : Value → Option String
  | string s => s
  | object [(k, null)] => k
  | _ => none

/-- A word as a number. -/
def ofWord (n : UInt32) : Value := ofNat n.toNat

end Value

/-- A member that is left out when there is no value. -/
def optionalMember (name : String) (write : α → Value) : Option α → List (String × Value)
  | none => []
  | some a => [(name, write a)]

end ApiRules.Json
