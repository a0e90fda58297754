import ApiRules.Dataset.Basic
import ApiRules.Query.Context
import ApiRules.Query.Finding

/-!
Findings for a signature. The records of the signature itself come first, then the records of the
owners around it, from the most specific one outwards up to the first that has an absolute rule. A
record of the signature hides the records of its kind on owners. Of each API level bound only the
tightest can be reported, and only if the level is outside it.
-/
namespace ApiRules.Query

/-- A record that covers the signature. -/
structure Candidate where
  record : Record
  scope : Scope
  deriving DecidableEq

/-- The levels up to the first that has an absolute rule. -/
def visited : List (Owner × List Record) → List (Owner × List Record)
  | [] => []
  | level :: levels =>
    if level.2.any fun r => r.kind.isAbsolute then [level] else level :: visited levels

def exactCandidates (d : Dataset) (s : Signature) : List Candidate :=
  (d.lookupExact s).map fun r => ⟨r, .exact⟩

/-- The records of one level whose kinds are not hidden. -/
def levelCandidates (hidden : KindSet) (level : Owner × List Record) : List Candidate :=
  (level.2.filter fun r => !hidden.contains r.kind).map fun r => ⟨r, .under level.1⟩

def candidates (d : Dataset) (s : Signature) : List Candidate :=
  let exact := exactCandidates d s
  let hidden := KindSet.ofList (exact.map fun c => c.record.kind)
  exact ++ (visited (d.lookupAncestry s)).flatMap (levelCandidates hidden)

/-- The level of a record of this kind. -/
def levelOf? (kind : Kind) (c : Candidate) : Option UInt32 :=
  if c.record.kind = kind then c.record.payload.bound? else none

/-- Keeps the better of the best bound so far and the bound of the candidate at `position`. -/
def better (kind : Kind) (best : Option (Nat × UInt32)) (c : Candidate × Nat) :
    Option (Nat × UInt32) :=
  match levelOf? kind c.1, best with
  | none, _ => best
  | some level, none => some (c.2, level)
  | some level, some (_, other) => if kind.tighter level other then some (c.2, level) else best

/-- The position and the level of the tightest bound of a kind; of equal ones the first. -/
def binding? (kind : Kind) (cs : List Candidate) : Option (Nat × UInt32) :=
  cs.zipIdx.foldl (better kind) none

/-- The target is outside a bound of this kind. -/
def violated (strict : Bool) (target : Option UInt32) (kind : Kind) (level : UInt32) : Bool :=
  match target with
  | none => strict
  | some t => if kind = .minApiLevel then t < level else level < t

/-- A bound is reported if it is the tightest of its kind and the target is outside it; other rules
always are. -/
def reported (strict : Bool) (target : Option UInt32) (cs : List Candidate)
    (c : Candidate × Nat) : Bool :=
  let kind := c.1.record.kind
  if kind.isApiBound then
    match binding? kind cs with
    | some (position, level) => position == c.2 && violated strict target kind level
    | none => false
  else true

/-- The findings without those whose payload stands before them. -/
def distinctPayloads (fs : List Finding) : List Finding :=
  fs.foldl (fun kept f => if kept.any (fun g => g.payload = f.payload) then kept else kept ++ [f]) []

/-- The gravest first; findings of one tier keep their order. -/
def bySeverity (fs : List Finding) : List Finding :=
  fs.mergeSort fun f g => f.kind.severity ≤ g.kind.severity

/-- The findings for a valid context. -/
def findingsAt (d : Dataset) (s : Signature) (strict : Bool) (target : Option UInt32) :
    List Finding :=
  let cs := candidates d s
  let shown := cs.zipIdx.filter (reported strict target cs)
  bySeverity (distinctPayloads (shown.map fun c => .ofRecord c.1.record c.1.scope))

/-- The findings for a signature. -/
def findings (d : Dataset) (s : Signature) (context : Context) :
    Except QueryError (List Finding) := do
  return findingsAt d s context.strict (← context.level)

end ApiRules.Query
