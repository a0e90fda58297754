import ApiRules.Dataset.Basic

/-!
Datasets from tables and containers. A table loads if all its patterns and methods parse, no pattern
has two rules of a kind, and no argument has two declarations.
-/
namespace ApiRules

namespace Table

/-- The records of an entry, whether or not they may stand together. -/
def Entry.records (source : Source) (e : Entry) : Except LoadError (List Record) :=
  match Pattern.parse e.pattern with
  | .error error => .error (.corrupt (.invalidPattern e.pattern error))
  | .ok pattern => .ok (e.rules.map fun r => ⟨pattern, r.payload, source, r.artifact⟩)

/-- The method that a declaration is about. -/
def Typedef.target (t : Typedef) : Except LoadError Signature :=
  match Signature.parse t.method with
  | .error error => .error (.corrupt (.invalidMethod t.method error))
  | .ok method =>
    if method.isMethod then .ok method else .error (.corrupt (.notAMethod t.method))

end Table

namespace Dataset

/-- Adds a record whose pattern has no record of its kind yet. -/
def accept (d : Dataset) (r : Record) : Except LoadError Dataset :=
  if d.records.any fun q => q.pattern = r.pattern ∧ q.kind = r.kind then
    .error (.corrupt (.duplicateRecord r.kind r.pattern))
  else .ok (d.push r)

def addEntry (source : Source) (d : Dataset) (e : Table.Entry) : Except LoadError Dataset := do
  (← e.records source).foldlM accept d

def addGroup (d : Dataset) (g : Table.Group) : Except LoadError Dataset :=
  g.entries.foldlM (addEntry g.source) d

/-- Adds a declaration whose argument has none yet. -/
def declare (constants : List Table.Constant) (d : Dataset) (t : Table.Typedef) :
    Except LoadError Dataset := do
  let method ← t.target
  if d.typedefs.any fun (m, u) => m = method ∧ u.argument = t.argument then
    throw (.corrupt (.duplicateTypedef t.argument t.method))
  else return { d with typedefs := d.typedefs ++ [(method, t.resolve constants)] }

/-- The dataset of a table. -/
def ofTable (t : Table) (digest : Option Digest) : Except LoadError Dataset := do
  let d ← t.groups.foldlM addGroup { empty with digest }
  t.typedefs.foldlM (declare t.constants) d

/-- What the declarations report up to the first that cannot be added. -/
def declarationEvents (constants : List Table.Constant) (d : Dataset) :
    List Table.Typedef → List ConstantEvent
  | [] => []
  | t :: ts =>
    match d.declare constants t with
    | .ok d => t.events constants ++ declarationEvents constants d ts
    | .error _ => []

/-- What loading a table reports. -/
def eventsOfTable (t : Table) : List ConstantEvent :=
  match t.groups.foldlM addGroup empty with
  | .ok d => declarationEvents t.constants d t.typedefs
  | .error _ => []

/-- The dataset in a container. -/
def ofBytes (bytes : Archive.Bytes) : Except LoadError Dataset := do
  let (t, digest) ← Container.decode bytes
  ofTable t (some digest)

def eventsOfBytes (bytes : Archive.Bytes) : List ConstantEvent :=
  match Container.decode bytes with
  | .ok (t, _) => eventsOfTable t
  | .error _ => []

end Dataset

end ApiRules
