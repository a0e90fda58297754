import ApiRules.Proofs.Dataset.Loading
import ApiRules.Proofs.Table.Rows

/-!
The records that are read from a table: one for each of its rows, in their order. They can be read if all
patterns can, those of entries without rules included.
-/
namespace ApiRules.Table

/-- The row reads as this record. -/
structure Row.Reads (row : Row) (r : Record) : Prop where
  pattern : Pattern.parse row.pattern = .ok r.pattern
  payload : r.payload = row.payload
  source : r.source = row.source
  artifact : r.artifact = row.artifact

theorem reads_entry {e : Entry} {source : Source} {rs : List Record}
    (h : (e.records source).toOption = some rs) : List.Forall₂ Row.Reads (e.rows source) rs := by
  rw [Entry.records] at h
  cases hp : Pattern.parse e.pattern with
  | error error =>
    rw [hp] at h
    cases h
  | ok pattern =>
    rw [hp] at h
    obtain rfl := Option.some.inj h
    rw [Entry.rows, List.forall₂_map_left_iff, List.forall₂_map_right_iff]
    exact List.forall₂_same.2 fun rule _ => ⟨hp, rfl, rfl, rfl⟩

theorem reads_group {g : Group} {rs : List Record} (h : g.records? = some rs) :
    List.Forall₂ Row.Reads g.rows rs := by
  obtain ⟨rss, hrss, rfl⟩ := Option.map_eq_some_iff.1 h
  exact Sequences.forall₂_flatMap_flatten ((Sequences.forall₂_of_mapM hrss).imp fun _ _ => reads_entry)

theorem reads_rows {t : Table} {rs : List Record} (h : t.records? = some rs) :
    List.Forall₂ Row.Reads t.rows rs := by
  obtain ⟨rss, hrss, rfl⟩ := Option.map_eq_some_iff.1 h
  exact Sequences.forall₂_flatMap_flatten ((Sequences.forall₂_of_mapM hrss).imp fun _ _ => reads_group)

end ApiRules.Table
