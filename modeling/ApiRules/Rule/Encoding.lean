import ApiRules.Json.Parts
import ApiRules.Json.Reader
import ApiRules.Rule.Payload

/-!
Payloads in JSON: the kind in the field `kind`, and beside it the fields of the kind. Visibilities
are written in the same way, with `type` for `kind`.
-/
namespace ApiRules

open Json

/-- The name of an alternative, or its number in the list of the names. -/
def alternative? (names : List String) (byNumber : Bool) (v : Value) : Option String :=
  match v with
  | .string (some s) => some s
  | .number n => if byNumber then n.toNat?.bind fun i => names[i]? else none
  | _ => none

namespace Visibility

def typeNames : List String := ["hidden", "test_only", "conditional"]

def ofParts? (parts : Parts) : Option Visibility := do
  match ← parts.required "type" 0 (alternative? typeNames true) with
  | "hidden" => if parts.fits 1 then some hidden else none
  | "test_only" => if parts.fits 1 then some testOnly else none
  | "conditional" =>
    if parts.fits 2 then some (conditional (← parts.optional "max_target_api" 1 Value.word?)) else none
  | _ => none

def ofJson? (v : Value) : Option Visibility := Parts.ofValue? v >>= ofParts?

def members : Visibility → List (String × Value)
  | hidden => [("type", .ofText "hidden")]
  | testOnly => [("type", .ofText "test_only")]
  | conditional level =>
    ("type", .ofText "conditional") :: optionalMember "max_target_api" Value.ofWord level

def toJson (v : Visibility) : Value := .ofMembers v.members

end Visibility

namespace Payload

def kindNames : List String :=
  ["deprecated", "removed", "restricted_visibility", "min_api_level", "max_api_level",
    "since_version"]

/-- The payload of these parts. Inside another value the kind may be given by its number. -/
def ofParts? (byNumber : Bool) (parts : Parts) : Option Payload := do
  let kind ← parts.required "kind" 0 (alternative? kindNames byNumber)
  if parts.fits 2 then
    match kind with
    | "deprecated" => return deprecated (← parts.optional "replacement" 1 Value.text?)
    | "removed" => return removed (← parts.optional "since" 1 Value.word?)
    | "restricted_visibility" =>
      return restrictedVisibility (← parts.required "visibility" 1 Visibility.ofJson?)
    | "min_api_level" => return minApiLevel (← parts.required "level" 1 Value.word?)
    | "max_api_level" => return maxApiLevel (← parts.required "level" 1 Value.word?)
    | "since_version" => return sinceVersion (← parts.required "version" 1 Value.text?)
    | _ => none
  else none

def ofJson? (v : Value) : Option Payload :=
  if v.isSound nestingLimit then Parts.ofValue? v >>= ofParts? false else none

/-- Reads a payload from the text of one. -/
def parse? (text : String) : Option Payload := Value.parse? text >>= ofJson?

def members (p : Payload) : List (String × Value) :=
  ("kind", .ofText p.kind.name) :: match p with
    | deprecated replacement => optionalMember "replacement" Value.ofText replacement
    | removed level => optionalMember "since" Value.ofWord level
    | restrictedVisibility v => [("visibility", v.toJson)]
    | minApiLevel level => [("level", .ofWord level)]
    | maxApiLevel level => [("level", .ofWord level)]
    | sinceVersion version => [("version", .ofText version)]

def toJson (p : Payload) : Value := .ofMembers p.members

end Payload

end ApiRules
