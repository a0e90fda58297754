import ApiRules.Constant.Typedef
import ApiRules.Container
import ApiRules.Dataset.Index
import ApiRules.Rule.Record

/-!
Datasets: the records of a table in its order, with an index of the exact patterns and one of the
owners of the other patterns, and the declared constants of arguments.
-/
namespace ApiRules

structure Dataset where
  records : List Record
  exact : Index Signature
  under : Index Owner
  typedefs : List (Signature × Typedef)
  digest : Option Digest

namespace Dataset

def empty : Dataset := ⟨[], .empty, .empty, [], none⟩

/-- One more record, at the end. -/
def push (d : Dataset) (r : Record) : Dataset :=
  let position := d.records.length
  match r.pattern with
  | .exact s => { d with records := d.records ++ [r], exact := d.exact.add s position }
  | .under o => { d with records := d.records ++ [r], under := d.under.add o position }

/-- The records at these positions. -/
def select (d : Dataset) (positions : List Nat) : List Record :=
  positions.filterMap fun i => d.records[i]?

/-- The records of exactly this signature, in the order of the dataset. -/
def lookupExact (d : Dataset) (s : Signature) : List Record := d.select (d.exact.get s)

/-- The records of everything under this owner, in the order of the dataset. -/
def lookupOwner (d : Dataset) (o : Owner) : List Record := d.select (d.under.get o)

/-- The records under an owner in any of its spellings, with or without a trailing `.*`. -/
def lookupUnder (d : Dataset) (owner : String) : Except SignatureError (List Record) :=
  d.lookupOwner <$> Owner.parseUnder owner

/-- The records under each owner around a signature, the most specific owner first. -/
def lookupAncestry (d : Dataset) (s : Signature) : List (Owner × List Record) :=
  s.owner.ancestry.map fun o => (o, d.lookupOwner o)

/-- The constants that an argument of a method takes, as far as they are declared on this owner. -/
def typedef? (d : Dataset) (method : Signature) (argument : UInt32) : Option Typedef :=
  (d.typedefs.find? fun (m, t) => m = method ∧ t.argument = argument).map Prod.snd

def length (d : Dataset) : Nat := d.records.length

def typedefCount (d : Dataset) : Nat := d.typedefs.length

/-- How many records each source has, without the sources that have none. -/
def countBySource (d : Dataset) : List (Source × Nat) :=
  (Source.all.map fun s => (s, d.records.countP fun r => r.source = s)).filter fun (_, n) => n ≠ 0

/-- How many records each kind has, without the kinds that have none. -/
def countByKind (d : Dataset) : List (Kind × Nat) :=
  (Kind.all.map fun k => (k, d.records.countP fun r => r.kind = k)).filter fun (_, n) => n ≠ 0

end Dataset

end ApiRules
