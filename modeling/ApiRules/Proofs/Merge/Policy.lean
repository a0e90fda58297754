import ApiRules.Proofs.Merge.Records
import ApiRules.Proofs.Signature.Canonical
import ApiRules.Proofs.Table.Rows
import Mathlib.Data.List.Find

/-!
The policy of a merge. For each pattern and kind the table has one rule if anything is stated about them.
It is the statement of the highest precedence, for API levels among those that state the narrowest bound,
and it keeps its source and its artifact.
-/
namespace ApiRules

namespace Record

/-- What a record has to be among the statements of its pattern and kind to outlast them: the highest
minimum, the lowest maximum, or of a kind without levels. -/
def binding (k : Kind) (stated : List Record) (r : Record) : Bool :=
  match k with
  | .minApiLevel => stated.all fun q => q.level ≤ r.level
  | .maxApiLevel => stated.all fun q => r.level ≤ q.level
  | _ => true

theorem binding_eq {k : Kind} {stated : List Record} (h : ∀ q ∈ stated, q.kind = k) {r : Record}
    (hr : r.kind = k) :
    binding k stated r = stated.all fun q => q.payload.tightness ≤ r.payload.tightness := by
  unfold binding
  split
  · apply Sequences.all_congr_mem
    intro q hq
    exact decide_eq_decide.2 (tightness_le_iff_of_min hr (h q hq)).symm
  · apply Sequences.all_congr_mem
    intro q hq
    exact decide_eq_decide.2 (tightness_le_iff_of_max hr (h q hq)).symm
  · rename_i hmin hmax
    have hb : k.isApiBound = false := by cases k <;> simp_all [Kind.isApiBound]
    refine (List.all_eq_true.2 fun q hq => decide_eq_true ?_).symm
    have hq0 : q.payload.tightness = 0 := Payload.tightness_eq_zero ((congrArg _ (h q hq)).trans hb)
    rw [hq0]
    exact Nat.zero_le _

theorem find?_binding {k : Kind} {stated : List Record} (h : ∀ q ∈ stated, q.kind = k) :
    stated.find? (binding k stated) = stated.argmax fun q => q.payload.tightness := by
  rw [Sequences.argmax_eq_find?]
  exact List.find?_congr fun r hr => binding_eq h (h r hr)

/-- The first binding one of the records with a key. -/
def foremost? (rs : List Record) (p : Pattern) (k : Kind) : Option Record :=
  let stated := rs.filter fun r => r.key = (p, k)
  stated.find? (binding k stated)

theorem foremost?_eq (rs : List Record) (p : Pattern) (k : Kind) :
    foremost? rs p k = (rs.filter fun r => r.key = (p, k)).argmax fun r => r.payload.tightness := by
  apply find?_binding
  intro q hq
  have hkey : q.key = (p, k) := by simpa using (List.mem_filter.1 hq).2
  exact congrArg Prod.snd hkey

theorem find?_settleAll_eq_foremost? (rs : List Record) (p : Pattern) (k : Kind) :
    (settleAll rs).find? (fun r => r.key = (p, k)) = foremost? rs p k := by
  rw [find?_settleAll, foremost?_eq]

theorem foremost?_eq_none {rs : List Record} {p : Pattern} {k : Kind} :
    foremost? rs p k = none ↔ ∀ r ∈ rs, r.key ≠ (p, k) := by
  rw [foremost?_eq, List.argmax_eq_none]
  simp [List.filter_eq_nil_iff]

end Record

/-- The pattern and the kind that a row is about. -/
def Table.Row.key? (row : Table.Row) : Option (Pattern × Kind) :=
  (Pattern.parse row.pattern).toOption.map fun p => (p, row.payload.kind)

theorem Record.key?_row (r : Record) : r.row.key? = some r.key := by
  simp only [row, Table.Row.key?, Pattern.parse_text]
  rfl

theorem Partial.exists_statement_iff {ps : List Partial} {p : Pattern} {payload : Payload} :
    (∃ r ∈ statements ps, r.pattern = p ∧ r.payload = payload) ↔
      ∃ q ∈ ps, ∃ raw ∈ q.records, Pattern.parse raw.pattern = .ok p ∧ raw.payload = payload := by
  constructor
  · rintro ⟨r, hr, rfl, rfl⟩
    obtain ⟨q, hq, raw, hraw, hs⟩ := mem_statements.1 hr
    obtain ⟨hp, hpay, -, -⟩ := stated?_eq_some.1 hs
    exact ⟨q, hq, raw, hraw, hp, hpay.symm⟩
  · rintro ⟨q, hq, raw, hraw, hp, rfl⟩
    refine ⟨⟨p, raw.payload, q.source, raw.artifact <|> q.artifact⟩, ?_, rfl, rfl⟩
    exact mem_statements.2 ⟨q, hq, raw, hraw, stated?_eq_some.2 ⟨hp, rfl, rfl, rfl⟩⟩

theorem Partial.exists_key_statement_iff {ps : List Partial} {p : Pattern} {k : Kind} :
    (∃ r ∈ statements ps, r.key = (p, k)) ↔
      ∃ q ∈ ps, ∃ raw ∈ q.records, Pattern.parse raw.pattern = .ok p ∧ raw.payload.kind = k := by
  constructor
  · rintro ⟨r, hr, hk⟩
    obtain ⟨rfl, rfl⟩ := Prod.mk.inj hk
    obtain ⟨q, hq, raw, hraw, hp, hpay⟩ := exists_statement_iff.1 ⟨r, hr, rfl, rfl⟩
    exact ⟨q, hq, raw, hraw, hp, congrArg Payload.kind hpay⟩
  · rintro ⟨q, hq, raw, hraw, hp, rfl⟩
    obtain ⟨r, hr, rfl, hpay⟩ := exists_statement_iff.2 ⟨q, hq, raw, hraw, hp, rfl⟩
    exact ⟨r, hr, Prod.ext rfl (congrArg Payload.kind hpay)⟩

theorem nodup_map_key_mergeState (ps : List Partial) : ((mergeState ps).records.map Record.key).Nodup := by
  rw [records_mergeState]
  exact Record.nodup_map_key_settleAll _

/-- The records of the merged table with a key: the first binding statement with it. -/
theorem filter_key_order_mergeState (ps : List Partial) (p : Pattern) (k : Kind) :
    ((Table.order (mergeState ps).records).filter fun r => r.key = (p, k)) =
      (Record.foremost? (Partial.statements ps) p k).toList := by
  rw [Sequences.filter_eq_of_perm (Table.order_perm _) (nodup_map_key_mergeState ps),
    Sequences.filter_eq_toList_find? (nodup_map_key_mergeState ps), records_mergeState,
    Record.find?_settleAll_eq_foremost?]

theorem filter_key?_rows_merge (ps : List Partial) (k : Pattern × Kind) :
    ((merge ps).table.rows.filter fun row => row.key? = some k) =
      ((Table.order (mergeState ps).records).filter fun r => r.key = k).map Record.row := by
  have hr : ((fun row : Table.Row => decide (row.key? = some k)) ∘ Record.row) =
      fun r => decide (r.key = k) := by
    funext r
    simp [Record.key?_row]
  rw [merge, Table.rows_table, List.filter_map, hr]

/-- A merged table has a rule for a pattern and a kind if a raw record is about them. It has one then, in one
group, and this is the first binding statement by precedence. -/
theorem merge_keeps_first_binding_statement (ps : List Partial) (p : Pattern) (k : Kind) :
    let rules := (merge ps).table.rows.filter fun row => row.key? = some (p, k)
    (rules ≠ [] ↔
      ∃ q ∈ ps, ∃ raw ∈ q.records, Pattern.parse raw.pattern = .ok p ∧ raw.payload.kind = k) ∧
    rules = ((Record.foremost? (Partial.statements ps) p k).map Record.row).toList ∧
    ((merge ps).table.groups.map Table.Group.source).Nodup := by
  intro rules
  have hr : rules = ((Record.foremost? (Partial.statements ps) p k).map Record.row).toList := by
    rw [Option.toList_map, ← filter_key_order_mergeState]
    exact filter_key?_rows_merge ps (p, k)
  have hnone : rules = [] ↔ Record.foremost? (Partial.statements ps) p k = none := by simp [hr]
  refine ⟨?_, hr, Table.nodup_sources_groupsOf _⟩
  rw [← Partial.exists_key_statement_iff, ne_eq, hnone, Record.foremost?_eq_none]
  simp only [ne_eq, not_forall, not_not, exists_prop]

end ApiRules
