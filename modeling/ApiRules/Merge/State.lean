import ApiRules.Merge.Event
import ApiRules.Partial.Basic
import ApiRules.Table

/-!
Merging, one contribution after another. The first record of a pattern and kind stays, unless a later
one states a tighter bound; the first declaration for an argument and the first literal of a constant
stay.
-/
namespace ApiRules

/-- One thing that a partial dataset says, with the source and the artifact that it is from. -/
inductive Contribution where
  | record (source : Source) (pattern : String) (payload : Payload) (artifact : Option String)
  | typedef (t : Table.Typedef)
  | constant (source : Source) (name value : String)
  deriving DecidableEq

namespace Partial

/-- What a partial dataset says: records, then declarations, then constants. -/
def contributions (p : Partial) : List Contribution :=
  (p.records.map fun r => .record p.source r.pattern r.payload (r.artifact <|> p.artifact)) ++
  (p.typedefs.map fun t => .typedef
    ⟨t.method, t.argument, t.kind, t.flag, t.constants, p.source, t.artifact <|> p.artifact⟩) ++
  p.constants.entries.map fun (name, value) => .constant p.source name value

end Partial

/-- A declaration with the method that it is about. -/
structure Declaration where
  method : Signature
  typedef : Table.Typedef
  deriving DecidableEq

/-- How often what happened. -/
structure MergeCounts where
  conflicts : Nat
  duplicates : Nat
  intersections : Nat
  skipped : Nat
  typedefConflicts : Nat
  deriving DecidableEq, Repr

/-- What is kept so far, in the order of first arrival. -/
structure MergeState where
  records : List Record
  declarations : List Declaration
  constants : Dictionary
  counts : MergeCounts
  events : List MergeEvent

namespace Record

/-- Two records of which a dataset keeps one. -/
def rivals (r q : Record) : Bool := r.pattern = q.pattern ∧ r.kind = q.kind

/-- The later record states a tighter bound than the one that is kept. -/
def tightens (r kept : Record) : Bool :=
  match kept.payload.bound?, r.payload.bound? with
  | some old, some new => r.kind.tighter new old
  | _, _ => false

/-- The kept records after one more. -/
def settle (r : Record) : List Record → List Record
  | [] => [r]
  | q :: qs => if r.rivals q then (if r.tightens q then r else q) :: qs else q :: settle r qs

end Record

namespace Declaration

/-- Two declarations for one argument of a method. -/
def rivals (a b : Declaration) : Bool :=
  a.method = b.method ∧ a.typedef.argument = b.typedef.argument

/-- The declarations name the same constants in the same way. -/
def agrees (a b : Declaration) : Bool :=
  a.typedef.kind = b.typedef.kind ∧ a.typedef.flag = b.typedef.flag ∧
    a.typedef.constants = b.typedef.constants

end Declaration

namespace MergeState

def empty : MergeState := ⟨[], [], .empty, ⟨0, 0, 0, 0, 0⟩, []⟩

/-- Leaves a contribution out. -/
def skip (m : MergeState) (e : MergeEvent) : MergeState :=
  { m with
    counts := { m.counts with skipped := m.counts.skipped + 1 }
    events := m.events ++ [e] }

/-- Counts and reports that a record meets the rival that is kept. -/
def meet (m : MergeState) (kept r : Record) : MergeState :=
  match kept.payload.bound?, r.payload.bound? with
  | some old, some new =>
    { m with
      counts := { m.counts with intersections := m.counts.intersections + 1 }
      events := m.events ++ [.intersection kept.pattern r.kind old new] }
  | _, _ =>
    if kept.payload = r.payload then
      { m with
        counts := { m.counts with duplicates := m.counts.duplicates + 1 }
        events := m.events ++ [.duplicate kept.pattern r.kind kept.source r.source] }
    else
      { m with
        counts := { m.counts with conflicts := m.counts.conflicts + 1 }
        events := m.events ++ [.conflict kept r] }

def addRecord (m : MergeState) (r : Record) : MergeState :=
  let met := match m.records.find? r.rivals with
    | none => m
    | some kept => m.meet kept r
  { met with records := r.settle m.records }

def addDeclaration (m : MergeState) (d : Declaration) : MergeState :=
  match m.declarations.find? d.rivals with
  | none => { m with declarations := m.declarations ++ [d] }
  | some kept =>
    if d.agrees kept then m
    else
      { m with
        counts := { m.counts with typedefConflicts := m.counts.typedefConflicts + 1 }
        events := m.events ++
          [.typedefConflict d.method d.typedef.argument kept.typedef.source d.typedef.source] }

def addConstant (m : MergeState) (source : Source) (name value : String) : MergeState :=
  match m.constants.get? name with
  | none => { m with constants := m.constants.insert name value }
  | some kept =>
    if kept = value then m
    else { m with events := m.events ++ [.constantConflict name kept value source] }

def add (m : MergeState) : Contribution → MergeState
  | .record source text payload artifact =>
    match Pattern.parse text with
    | .error e => m.skip (.invalidPattern text source e)
    | .ok pattern => m.addRecord ⟨pattern, payload, source, artifact⟩
  | .typedef t =>
    match Signature.parse t.method with
    | .error e => m.skip (.invalidMethod t.method t.source e)
    | .ok method =>
      if method.isMethod then m.addDeclaration ⟨method, { t with method := method.text }⟩
      else m.skip (.typedefOnNonMethod t.method t.source)
  | .constant source name value => m.addConstant source name value

end MergeState

end ApiRules
