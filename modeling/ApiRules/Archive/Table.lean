import ApiRules.Archive.Layout
import ApiRules.Table

/-!
The layout of tables.
-/
namespace ApiRules.Archive

open Layout

def bool : Layout Bool :=
  byte (fun b => if b then 1 else 0) fun
    | 0 => some false
    | 1 => some true
    | _ => none

def source : Layout Source :=
  byte (fun s => UInt8.ofNat s.rank) fun
    | 0 => some .sdkLint
    | 1 => some .googleMaven
    | 2 => some .mavenCentral
    | _ => none

def constantKind : Layout ConstantKind :=
  byte (fun | .int => 0 | .long => 1 | .text => 2) fun
    | 0 => some .int
    | 1 => some .long
    | 2 => some .text
    | _ => none

def visibilityTag : Visibility → UInt8
  | .hidden => 0
  | .testOnly => 1
  | .conditional _ => 2

def visibility : Layout Visibility :=
  tagged 8 visibilityTag fun
    | 0 => some (nothing .hidden)
    | 1 => some (nothing .testOnly)
    | 2 => some ((option word).map .conditional fun | .conditional level => level | _ => none)
    | _ => none

def payloadTag : Payload → UInt8
  | .deprecated _ => 0
  | .removed _ => 1
  | .restrictedVisibility _ => 2
  | .minApiLevel _ => 3
  | .maxApiLevel _ => 4
  | .sinceVersion _ => 5

def payload : Layout Payload :=
  tagged 12 payloadTag fun
    | 0 => some ((option text).map .deprecated fun | .deprecated r => r | _ => none)
    | 1 => some ((option word).map .removed fun | .removed level => level | _ => none)
    | 2 => some (visibility.map .restrictedVisibility fun
        | .restrictedVisibility v => v
        | _ => .hidden)
    | 3 => some (word.map .minApiLevel fun | .minApiLevel level => level | _ => 0)
    | 4 => some (word.map .maxApiLevel fun | .maxApiLevel level => level | _ => 0)
    | 5 => some (text.map .sinceVersion fun | .sinceVersion version => version | _ => "")
    | _ => none

def rule : Layout Table.Rule :=
  (payload.pair (option text)).map (fun (p, a) => ⟨p, a⟩) fun r => (r.payload, r.artifact)

def entry : Layout Table.Entry :=
  (text.pair (vector rule)).map (fun (p, rs) => ⟨p, rs⟩) fun e => (e.pattern, e.rules)

def group : Layout Table.Group :=
  ((source.pad 3).pair (vector entry)).map (fun (s, es) => ⟨s, es⟩) fun g => (g.source, g.entries)

def constant : Layout Table.Constant :=
  (text.pair text).map (fun (n, v) => ⟨n, v⟩) fun c => (c.name, c.value)

def typedef : Layout Table.Typedef :=
  (text.pair <| word.pair <| constantKind.pair <| (bool.pad 2).pair <| (vector text).pair <|
    (source.pad 3).pair (option text)).map
    (fun (method, argument, kind, flag, constants, source, artifact) =>
      ⟨method, argument, kind, flag, constants, source, artifact⟩)
    fun t => (t.method, t.argument, t.kind, t.flag, t.constants, t.source, t.artifact)

def table : Layout Table :=
  ((vector group).pair <| (vector typedef).pair (vector constant)).map
    (fun (groups, typedefs, constants) => ⟨groups, typedefs, constants⟩)
    fun t => (t.groups, t.typedefs, t.constants)

end ApiRules.Archive
