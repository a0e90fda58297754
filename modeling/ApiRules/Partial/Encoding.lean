import ApiRules.Json.Writer
import ApiRules.Partial.Basic
import ApiRules.Rule.Encoding

/-!
Partial datasets in JSON.
-/
namespace ApiRules

open Json

namespace Partial

namespace Record

/-- A record is an object, whose members are its own fields and those of its payload. It has to be
sound as a whole; two containers are around it. -/
def ofJson? (v : Value) : Option Record := do
  if v.isSound (nestingLimit - 2) then
    let parts ← Parts.ofObject? v
    let pattern ← parts.required "pattern" 0 Value.text?
    let payload ← Payload.ofParts? true parts
    let artifact ← parts.optional "artifact" 0 Value.text?
    return ⟨pattern, payload, artifact⟩
  else none

def toJson (r : Record) : Value :=
  .ofMembers (("pattern", .ofText r.pattern) ::
    (r.payload.members ++ optionalMember "artifact" Value.ofText r.artifact))

end Record

def kindOfJson? (v : Value) : Option ConstantKind := v.enumName?.bind ConstantKind.ofName?

namespace Typedef

def ofJson? (v : Value) : Option Typedef := do
  let parts ← Parts.ofValue? v
  let method ← parts.required "method" 0 Value.text?
  let argument ← parts.required "argument" 1 Value.word?
  let kind ← parts.required "kind" 2 kindOfJson?
  let flag ← parts.orElse "flag" 3 false Value.bool?
  let constants ← parts.orElse "constants" 4 [] (Value.list? Value.text?)
  let artifact ← parts.optional "artifact" 5 Value.text?
  if parts.fits 6 then return ⟨method, argument, kind, flag, constants, artifact⟩ else none

def toJson (t : Typedef) : Value :=
  .ofMembers ([("method", .ofText t.method), ("argument", .ofWord t.argument),
    ("kind", .ofText t.kind.name), ("flag", .bool t.flag),
    ("constants", .array (t.constants.map Value.ofText))] ++
    optionalMember "artifact" Value.ofText t.artifact)

end Typedef

def sourceOfJson? (v : Value) : Option Source := v.enumName?.bind Source.ofName?

def constantOfMember? : Literal × Value → Option (String × String)
  | (some name, .string (some value)) => some (name, value)
  | _ => none

def constantsOfJson? : Value → Option Dictionary
  | .object members => (members.mapM constantOfMember?).map Dictionary.ofList
  | _ => none

def ofJson? (v : Value) : Option Partial := do
  let parts ← Parts.ofValue? v
  let source ← parts.required "source" 0 sourceOfJson?
  let artifact ← parts.optional "artifact" 1 Value.text?
  let records ← parts.orElse "records" 2 [] (Value.list? Record.ofJson?)
  let typedefs ← parts.orElse "typedefs" 3 [] (Value.list? Typedef.ofJson?)
  let constants ← parts.orElse "constants" 4 .empty constantsOfJson?
  if parts.fits 5 then return ⟨source, artifact, records, typedefs, constants⟩ else none

/-- Reads a partial dataset from the text of one. -/
def parse? (text : String) : Option Partial := Value.parse? text >>= ofJson?

def toJson (p : Partial) : Value :=
  .ofMembers (("source", .ofText p.source.name) ::
    (optionalMember "artifact" Value.ofText p.artifact ++
      [("records", .array (p.records.map Record.toJson)),
        ("typedefs", .array (p.typedefs.map Typedef.toJson)),
        ("constants", .ofMembers (p.constants.entries.map fun (k, v) => (k, .ofText v)))]))

/-- The text of a partial dataset. -/
def text (p : Partial) : String := p.toJson.text

end Partial

end ApiRules
