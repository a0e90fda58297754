import ApiRules.Merge.State
import ApiRules.Text.Number

/-!
The merge of partial datasets: one table, grouped by source and in order throughout, and a report of
what became of the contributions.
-/
namespace ApiRules

/-- What became of the contributions. -/
structure MergeReport where
  inputs : Nat
  /-- How many records are left, for the sources that have some. -/
  recordsBySource : List (Source × Nat)
  counts : MergeCounts
  typedefs : Nat
  constants : Nat
  deriving DecidableEq

namespace MergeReport

def records (r : MergeReport) : Nat := (r.recordsBySource.map Prod.snd).foldr (· + ·) 0

def recordsOf (r : MergeReport) (s : Source) : Nat := (r.recordsBySource.lookup s).getD 0

def lines (r : MergeReport) : List String :=
  [s!"merged {r.inputs} partial dataset(s)"] ++
  (Source.all.map fun s => s!"  {Text.padRight 14 s.label} {r.recordsOf s} record(s)") ++
  [s!"  conflicts      {r.counts.conflicts}",
    s!"  duplicates     {r.counts.duplicates}",
    s!"  intersections  {r.counts.intersections}",
    s!"  skipped        {r.counts.skipped}",
    s!"  typedefs       {r.typedefs} ({r.counts.typedefConflicts} conflict(s)), constants {r.constants}"]

def text (r : MergeReport) : String := String.intercalate "\n" r.lines

end MergeReport

namespace Table

/-- The rules of a pattern, in the order of their kinds. -/
def entryOf (records : List Record) (pattern : Pattern) : Entry :=
  let own := records.filter fun r => r.pattern = pattern
  ⟨pattern.text, (own.mergeSort fun a b => a.kind.rank ≤ b.kind.rank).map fun r =>
    ⟨r.payload, r.artifact⟩⟩

/-- The patterns of records, each once, in the order of their spelling. -/
def patternsOf (records : List Record) : List Pattern :=
  ((records.map Record.pattern).eraseDups).mergeSort fun a b => a.text ≤ b.text

/-- The group of a source, if it has records. -/
def groupOf? (records : List Record) (source : Source) : Option Group :=
  let own := records.filter fun r => r.source = source
  if own = [] then none else some ⟨source, (patternsOf own).map (entryOf own)⟩

/-- The records by source, pattern and kind. -/
def groupsOf (records : List Record) : List Group := Source.all.filterMap (groupOf? records)

/-- The declarations by method and argument. -/
def typedefsOf (declarations : List Declaration) : List Typedef :=
  (declarations.mergeSort fun a b =>
    ((a.method.compare b.method).then (compare a.typedef.argument b.typedef.argument)).isLE).map
    Declaration.typedef

end Table

namespace MergeState

def table (m : MergeState) : Table where
  groups := Table.groupsOf m.records
  typedefs := Table.typedefsOf m.declarations
  constants := m.constants.entries.map fun (name, value) => ⟨name, value⟩

def report (m : MergeState) (inputs : Nat) : MergeReport where
  inputs := inputs
  recordsBySource :=
    (Source.all.map fun s => (s, m.records.countP fun r => r.source = s)).filter fun (_, n) => n ≠ 0
  counts := m.counts
  typedefs := m.declarations.length
  constants := m.constants.entries.length

end MergeState

namespace Partial

/-- By priority; partial datasets of one source keep their order. -/
def byPriority (ps : List Partial) : List Partial :=
  ps.mergeSort fun a b => a.source.rank ≤ b.source.rank

end Partial

structure Merged where
  table : Table
  report : MergeReport
  events : List MergeEvent

/-- What is kept of partial datasets. -/
def mergeState (ps : List Partial) : MergeState :=
  ((Partial.byPriority ps).flatMap Partial.contributions).foldl MergeState.add .empty

def merge (ps : List Partial) : Merged :=
  let m := mergeState ps
  ⟨m.table, m.report ps.length, m.events⟩

end ApiRules
