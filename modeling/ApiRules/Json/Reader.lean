import ApiRules.Json.Token

/-!
Values from tokens, by a machine with a stack of open containers, so that nesting has no limit.
-/
namespace ApiRules.Json

namespace Reader

/-- An open container with what it holds so far, the last first. -/
inductive Frame where
  | array (items : List Value)
  | object (members : List (Literal × Value))
  | member (members : List (Literal × Value)) (key : Literal)

/-- What may come next. -/
inductive Expected where
  | value
  | firstItem
  | firstKey
  | key
  | colon
  | next
  | nothing (v : Value)

end Reader

structure Reader where
  stack : List Reader.Frame
  expected : Reader.Expected

namespace Reader

/-- A value is complete. -/
def deliver (v : Value) : List Frame → Option Reader
  | [] => some ⟨[], .nothing v⟩
  | .array items :: stack => some ⟨.array (v :: items) :: stack, .next⟩
  | .member members key :: stack => some ⟨.object ((key, v) :: members) :: stack, .next⟩
  | .object _ :: _ => none

/-- A token where a value may start. -/
def start (stack : List Frame) : Token → Option Reader
  | .openArray => some ⟨.array [] :: stack, .firstItem⟩
  | .openObject => some ⟨.object [] :: stack, .firstKey⟩
  | .atom v => deliver v stack
  | _ => none

/-- A token that ends the innermost container. -/
def close : List Frame → Token → Option Reader
  | .array items :: stack, .closeArray => deliver (.array items.reverse) stack
  | .object members :: stack, .closeObject => deliver (.object members.reverse) stack
  | _, _ => none

/-- A token where a key must come. -/
def key : List Frame → Token → Option Reader
  | .object members :: stack, .atom (.string k) => some ⟨.member members k :: stack, .colon⟩
  | _, _ => none

def step (r : Reader) (t : Token) : Option Reader :=
  match r.expected with
  | .value => start r.stack t
  | .firstItem =>
    match t with
    | .closeArray => close r.stack t
    | _ => start r.stack t
  | .firstKey =>
    match t with
    | .closeObject => close r.stack t
    | _ => key r.stack t
  | .key => key r.stack t
  | .colon =>
    match t with
    | .colon => some ⟨r.stack, .value⟩
    | _ => none
  | .next =>
    match t, r.stack with
    | .comma, .array _ :: _ => some ⟨r.stack, .value⟩
    | .comma, .object _ :: _ => some ⟨r.stack, .key⟩
    | _, _ => close r.stack t
  | .nothing _ => none

def finish (r : Reader) : Option Value :=
  match r.expected with
  | .nothing v => some v
  | _ => none

end Reader

namespace Value

def ofTokens? (ts : List Token) : Option Value :=
  ts.foldlM Reader.step ⟨[], .value⟩ >>= Reader.finish

/-- The value that a text spells, if it spells one and nothing else. -/
def parse? (text : String) : Option Value := tokens? text.toList >>= ofTokens?

end Value

end ApiRules.Json
