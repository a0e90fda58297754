import ApiRules.Merge.Basic
import ApiRules.Proofs.Sequences
import Mathlib.Data.List.Perm.Basic

/-!
The rows of a table: its rules one after another, each with the source of its group and the pattern of its
entry. A table made of records has a row for each record, in the order of the table.
-/
namespace ApiRules

namespace Table

/-- A rule where it stands. -/
structure Row where
  source : Source
  pattern : String
  payload : Payload
  artifact : Option String
  deriving DecidableEq

def Entry.rows (source : Source) (e : Entry) : List Row :=
  e.rules.map fun r => ⟨source, e.pattern, r.payload, r.artifact⟩

def Group.rows (g : Group) : List Row := g.entries.flatMap (Entry.rows g.source)

def rows (t : Table) : List Row := t.groups.flatMap Group.rows

theorem length_rows (t : Table) : t.rows.length = t.recordCount := by
  simp [rows, Group.rows, Entry.rows, recordCount, List.length_flatMap]

end Table

/-- The row of a record in a table. -/
def Record.row (r : Record) : Table.Row := ⟨r.source, r.pattern.text, r.payload, r.artifact⟩

namespace Table

/-- The records of one pattern, by kind. -/
def entryOrder (rs : List Record) (p : Pattern) : List Record :=
  (rs.filter fun r => r.pattern = p).mergeSort fun a b => a.kind.rank ≤ b.kind.rank

/-- The records of one source, by pattern and kind. -/
def groupOrder (rs : List Record) (s : Source) : List Record :=
  let own := rs.filter fun r => r.source = s
  (patternsOf own).flatMap (entryOrder own)

/-- Records in the order in which a table lists them. -/
def order (rs : List Record) : List Record := Source.all.flatMap (groupOrder rs)

theorem mem_entryOrder {rs : List Record} {p : Pattern} {r : Record} :
    r ∈ entryOrder rs p ↔ r ∈ rs ∧ r.pattern = p := by
  simp [entryOrder]

theorem nodup_patternsOf (rs : List Record) : (patternsOf rs).Nodup :=
  (List.mergeSort_perm _ _).nodup_iff.2 (Sequences.nodup_eraseDups _)

theorem mem_patternsOf {rs : List Record} {p : Pattern} :
    p ∈ patternsOf rs ↔ ∃ r ∈ rs, r.pattern = p := by
  simp [patternsOf, List.mem_eraseDups]

theorem groupOrder_perm (rs : List Record) (s : Source) :
    (groupOrder rs s).Perm (rs.filter fun r => r.source = s) := by
  have hs := Sequences.perm_flatMap_filter Record.pattern (nodup_patternsOf _)
    fun r (hr : r ∈ rs.filter fun r => r.source = s) => mem_patternsOf.2 ⟨r, hr, rfl⟩
  exact (List.Perm.flatMap_left _ fun p _ => List.mergeSort_perm _ _).trans hs

theorem order_perm (rs : List Record) : (order rs).Perm rs :=
  (List.Perm.flatMap_left _ fun s _ => groupOrder_perm rs s).trans
    (Sequences.perm_flatMap_filter Record.source (by decide) fun r _ => by cases r.source <;> decide)

theorem source_of_groupOf? {rs : List Record} {s : Source} {g : Group} (h : groupOf? rs s = some g) :
    g.source = s := by
  simp only [groupOf?] at h
  split at h
  · cases h
  · obtain rfl := Option.some.inj h
    rfl

theorem nodup_sources_groupsOf (rs : List Record) : ((groupsOf rs).map Group.source).Nodup := by
  rw [groupsOf, List.map_filterMap]
  apply List.Nodup.filterMap
  · intro s s' t hs hs'
    obtain ⟨g, hg, rfl⟩ := Option.map_eq_some_iff.1 hs
    obtain ⟨g', hg', he⟩ := Option.map_eq_some_iff.1 hs'
    rw [← source_of_groupOf? hg, ← source_of_groupOf? hg', he]
  · decide

theorem rows_entryOf {rs : List Record} {s : Source} (h : ∀ r ∈ rs, r.source = s) (p : Pattern) :
    (entryOf rs p).rows s = (entryOrder rs p).map Record.row := by
  rw [entryOf, Entry.rows, List.map_map]
  apply List.map_congr_left
  intro r hr
  obtain ⟨hr, hp⟩ := mem_entryOrder.1 hr
  simp [Record.row, h r hr, hp]

theorem rows_groupOf? (rs : List Record) (s : Source) :
    (groupOf? rs s).toList.flatMap Group.rows = (groupOrder rs s).map Record.row := by
  simp only [groupOf?, groupOrder]
  split
  · rename_i hn
    simp [hn, patternsOf]
  · have hs : ∀ r ∈ rs.filter fun r => r.source = s, r.source = s := fun r hr => by
      simpa using (List.mem_filter.1 hr).2
    rw [Option.toList_some, List.flatMap_singleton, Group.rows, List.flatMap_map, List.map_flatMap]
    exact List.flatMap_congr fun p _ => rows_entryOf hs p

theorem rows_table (m : MergeState) : m.table.rows = (order m.records).map Record.row := by
  have hg : (groupsOf m.records).flatMap Group.rows =
      Source.all.flatMap fun s => (groupOf? m.records s).toList.flatMap Group.rows := by
    rw [groupsOf, List.filterMap_eq_flatMap_toList, List.flatMap_assoc]
  rw [rows, MergeState.table, hg, order, List.map_flatMap]
  exact List.flatMap_congr fun s _ => rows_groupOf? m.records s

end Table

end ApiRules
