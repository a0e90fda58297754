import ApiRules.Rule.Record

/-!
Findings: what a query reports.
-/
namespace ApiRules

/-- How the pattern of a finding's record covers the signature. -/
inductive Scope where
  | exact
  | under (owner : Owner)
  deriving DecidableEq

structure Finding where
  payload : Payload
  source : Source
  artifact : Option String
  scope : Scope
  deriving DecidableEq

namespace Finding

def ofRecord (r : Record) (scope : Scope) : Finding := ⟨r.payload, r.source, r.artifact, scope⟩

def kind (f : Finding) : Kind := f.payload.kind

def text (f : Finding) : String :=
  let artifact := match f.artifact with
    | none => ""
    | some a => ", " ++ a
  let via := match f.scope with
    | .exact => ""
    | .under o => " via " ++ o.text ++ ".*"
  "[" ++ f.kind.name ++ "] " ++ f.payload.text ++ " (" ++ f.source.label ++ artifact ++ ")" ++ via

end Finding

end ApiRules
