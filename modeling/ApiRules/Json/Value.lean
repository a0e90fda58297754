import ApiRules.Json.Number

/-!
JSON values. Objects keep their members in the order of the text, repetitions included, so that a
reader of values can refuse or accept them.
-/
namespace ApiRules.Json

/-- A string, or `none` for a literal whose escapes spell half of a surrogate pair: grammatical, but
no text. -/
abbrev Literal := Option String

inductive Value where
  | null
  | bool (b : Bool)
  | number (n : Number)
  | string (s : Literal)
  | array (items : List Value)
  | object (members : List (Literal × Value))
  deriving Inhabited

namespace Value

def ofText (s : String) : Value := string (some s)

def ofNat (n : Nat) : Value := number (.ofNat n)

/-- An object with these members. -/
def ofMembers (members : List (String × Value)) : Value :=
  object (members.map fun (k, v) => (some k, v))

/-- A value that is missing is written `null`. -/
def ofOption (f : α → Value) : Option α → Value
  | none => null
  | some a => f a

mutual

/-- At most `levels` containers stand in one another, all strings are texts, and all numbers are
finite. -/
def isSound : Nat → Value → Bool
  | _, null => true
  | _, bool _ => true
  | _, number n => !n.overflows
  | _, string s => s.isSome
  | 0, array _ => false
  | levels + 1, array items => areSound levels items
  | 0, object _ => false
  | levels + 1, object members => membersAreSound levels members

def areSound : Nat → List Value → Bool
  | _, [] => true
  | levels, v :: vs => isSound levels v && areSound levels vs

def membersAreSound : Nat → List (Literal × Value) → Bool
  | _, [] => true
  | levels, (k, v) :: ms => k.isSome && isSound levels v && membersAreSound levels ms

end

end Value

end ApiRules.Json
