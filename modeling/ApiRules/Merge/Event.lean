import ApiRules.Log
import ApiRules.Rule.Record

/-!
What a merge reports.
-/
namespace ApiRules

inductive MergeEvent where
  | invalidPattern (text : String) (source : Source) (error : SignatureError)
  | typedefOnNonMethod (text : String) (source : Source)
  | invalidMethod (text : String) (source : Source) (error : SignatureError)
  | typedefConflict (method : Signature) (argument : UInt32) (kept discarded : Source)
  | constantConflict (name kept discarded : String) (source : Source)
  | intersection (pattern : Pattern) (kind : Kind) (kept incoming : UInt32)
  | duplicate (pattern : Pattern) (kind : Kind) (kept discarded : Source)
  | conflict (kept discarded : Record)
  deriving DecidableEq

namespace MergeEvent

def entry : MergeEvent → LogEntry
  | invalidPattern text source error =>
    ⟨.warn, "skipped record with invalid pattern",
      [("pattern", text), ("source", source.label), ("error", error.message)]⟩
  | typedefOnNonMethod text source =>
    ⟨.warn, "skipped typedef on a non-method", [("method", text), ("source", source.label)]⟩
  | invalidMethod text source error =>
    ⟨.warn, "skipped typedef with invalid method",
      [("method", text), ("source", source.label), ("error", error.message)]⟩
  | typedefConflict method argument kept discarded =>
    ⟨.warn, "typedef conflict, keeping higher-priority source",
      [("method", method.text), ("argument", toString argument), ("kept", kept.label),
        ("discarded", discarded.label)]⟩
  | constantConflict name kept discarded source =>
    ⟨.warn, "constant value conflict",
      [("constant", name), ("kept", kept), ("discarded", discarded), ("source", source.label)]⟩
  | intersection pattern kind kept incoming =>
    ⟨.debug, "intersecting API level bounds",
      [("pattern", pattern.text), ("kind", kind.name), ("kept", toString kept),
        ("incoming", toString incoming)]⟩
  | duplicate pattern kind kept discarded =>
    ⟨.debug, "identical record",
      [("pattern", pattern.text), ("kind", kind.name), ("kept", kept.label),
        ("duplicate", discarded.label)]⟩
  | conflict kept discarded =>
    ⟨.warn, "conflicting record discarded",
      [("pattern", kept.pattern.text), ("kind", kept.kind.name), ("kept", kept.source.label),
        ("discarded", discarded.source.label), ("kept_payload", kept.payload.text),
        ("discarded_payload", discarded.payload.text)]⟩

end MergeEvent

end ApiRules
