import ApiRules.Proofs.Dataset.Loading
import ApiRules.Proofs.Merge.Declarations
import ApiRules.Proofs.Merge.Policy

/-!
A merged table loads. Its patterns and methods are spelled canonically and read back as what they were, so
that what a merge keeps apart by its key stays apart.
-/
namespace ApiRules

namespace Table

theorem records_entryOf {rs : List Record} {s : Source} (h : ∀ r ∈ rs, r.source = s) (p : Pattern) :
    (entryOf rs p).records s = .ok (entryOrder rs p) := by
  have hr : ∀ r ∈ entryOrder rs p, (⟨p, r.payload, s, r.artifact⟩ : Record) = r := by
    intro r hr
    obtain ⟨hm, rfl⟩ := mem_entryOrder.1 hr
    rw [← h r hm]
  have hm : (entryOrder rs p).map (fun r => (⟨p, r.payload, s, r.artifact⟩ : Record)) = entryOrder rs p :=
    (List.map_congr_left hr).trans (List.map_id' _)
  simp only [Entry.records, entryOf, Pattern.parse_text, List.map_map]
  exact congrArg Except.ok hm

theorem records?_entries {rs : List Record} {s : Source} (h : ∀ r ∈ rs, r.source = s) (ps : List Pattern) :
    (⟨s, ps.map (entryOf rs)⟩ : Group).records? = some (ps.flatMap (entryOrder rs)) := by
  have he : ∀ e ∈ ps, ((entryOf rs e).records s).toOption = some (entryOrder rs e) := fun p _ => by
    rw [records_entryOf h p]
    rfl
  have hm := Sequences.mapM_eq_some_map he
  rw [Group.records?, List.mapM_map]
  exact congrArg (Option.map List.flatten) hm

theorem records?_groupOf? {rs : List Record} {s : Source} {g : Group} (h : groupOf? rs s = some g) :
    g.records? = some (groupOrder rs s) := by
  simp only [groupOf?] at h
  split at h
  · cases h
  · obtain rfl := Option.some.inj h
    have hs : ∀ r ∈ rs.filter fun r => r.source = s, r.source = s := fun r hr => by
      simpa using (List.mem_filter.1 hr).2
    exact records?_entries hs _

theorem groupOrder_eq_nil {rs : List Record} {s : Source} (h : groupOf? rs s = none) :
    groupOrder rs s = [] := by
  simp only [groupOf?] at h
  split at h
  · rename_i hn
    exact (hn ▸ groupOrder_perm rs s).eq_nil
  · cases h

theorem flatMap_groupOrder_groupsOf (rs : List Record) :
    ((groupsOf rs).flatMap fun g => groupOrder rs g.source) = order rs := by
  rw [groupsOf, List.filterMap_eq_flatMap_toList, List.flatMap_assoc, order]
  apply List.flatMap_congr
  intro s _
  cases hs : groupOf? rs s with
  | none => rw [groupOrder_eq_nil hs, Option.toList_none, List.flatMap_nil]
  | some g => rw [Option.toList_some, List.flatMap_singleton, source_of_groupOf? hs]

/-- The records that are read from a table are those that it was made of. -/
theorem records?_table (m : MergeState) : m.table.records? = some (order m.records) := by
  have hg : ∀ g ∈ m.table.groups, g.records? = some (groupOrder m.records g.source) := by
    intro g hg
    obtain ⟨s, -, hs⟩ := List.mem_filterMap.1 hg
    rw [source_of_groupOf? hs]
    exact records?_groupOf? hs
  have ho := flatMap_groupOrder_groupsOf m.records
  rw [List.flatMap_def] at ho
  rw [records?, Sequences.mapM_eq_some_map hg, Option.map_some]
  exact congrArg some ho

end Table

namespace Declaration

/-- The declaration as a dataset has it. -/
def declared (constants : List Table.Constant) (d : Declaration) : Signature × Typedef :=
  (d.method, d.typedef.resolve constants)

theorem Canonical.declared? {d : Declaration} (h : d.Canonical) (constants : List Table.Constant) :
    d.typedef.declared? constants = some (d.declared constants) := by
  have ht : d.typedef.target = .ok d.method := by
    simp only [Table.Typedef.target, h.parse_method, h.isMethod, if_true]
  rw [Table.Typedef.declared?, ht]
  rfl

end Declaration

/-- The declarations that are read from a merged table are those that were kept, in some order. -/
theorem exists_declared_table (ps : List Partial) :
    ∃ declared, (merge ps).table.typedefs.mapM (Table.Typedef.declared? (merge ps).table.constants) =
        some declared ∧
      declared.length = (mergeState ps).declarations.length ∧ (declared.map Dataset.slot).Nodup := by
  obtain ⟨sorted, hp, ht⟩ := exists_perm_typedefs_merge ps
  have hd : ∀ d ∈ sorted, d.typedef.declared? (merge ps).table.constants =
      some (d.declared (merge ps).table.constants) := fun d hd =>
    (canonical_of_mem_declarations (hp.mem_iff.1 hd)).declared? _
  have hk : (sorted.map (Declaration.declared (merge ps).table.constants)).map Dataset.slot =
      sorted.map Declaration.key := by
    rw [List.map_map]
    rfl
  refine ⟨sorted.map (Declaration.declared (merge ps).table.constants), ?_, ?_, ?_⟩
  · rw [ht, List.mapM_map]
    exact Sequences.mapM_eq_some_map hd
  · rw [List.length_map, hp.length_eq]
  · rw [hk]
    exact (hp.map Declaration.key).nodup_iff.2 (nodup_map_key_declarations ps)

theorem records_report (m : MergeState) (inputs : Nat) : (m.report inputs).records = m.records.length := by
  have hs := Sequences.sum_countP_eq_length Record.source Source.nodup_all
    fun r (_ : r ∈ m.records) => r.source.mem_all
  have hz := Sequences.sum_map_filter_ne_zero
    (Source.all.map fun s => (s, m.records.countP fun r => r.source = s))
  rw [List.map_map] at hz
  exact hz.trans hs

theorem ofTable_merge (ps : List Partial) (digest : Option Digest) :
    ∃ declared, Dataset.ofTable (merge ps).table digest =
        .ok (Dataset.made digest (Table.order (mergeState ps).records) declared) ∧
      declared.length = (mergeState ps).declarations.length ∧ (declared.map Dataset.slot).Nodup := by
  obtain ⟨declared, hdec, hlen, hslots⟩ := exists_declared_table ps
  have hkeys : ((Table.order (mergeState ps).records).map Record.key).Nodup :=
    ((Table.order_perm _).map Record.key).nodup_iff.2 (nodup_map_key_mergeState ps)
  refine ⟨declared, Dataset.ofTable_eq_ok.2 ?_, hlen, hslots⟩
  exact ⟨_, declared, Table.records?_table _, hkeys, hdec, hslots, rfl⟩

/-- Every merged table loads, as a dataset of its rows with the counts of its report. No two records have one
pattern and kind, and no two declarations are about one argument of a method. -/
theorem merged_table_loads (ps : List Partial) (digest : Option Digest) :
    let m := merge ps
    ∃ d, Dataset.ofTable m.table digest = .ok d ∧
      d.records.map Record.row = m.table.rows ∧ (d.records.map Record.key).Nodup ∧
      d.length = m.table.recordCount ∧ d.length = m.report.records ∧
      d.countBySource = m.report.recordsBySource ∧
      d.typedefCount = m.report.typedefs ∧ (d.typedefs.map Dataset.slot).Nodup := by
  intro m
  obtain ⟨declared, hd, hlen, hslots⟩ := ofTable_merge ps digest
  have hp := Table.order_perm (mergeState ps).records
  have hrec := Dataset.records_made digest (Table.order (mergeState ps).records) declared
  have hrows : (Table.order (mergeState ps).records).map Record.row = m.table.rows :=
    (Table.rows_table (mergeState ps)).symm
  refine ⟨_, hd, ?_, ?_, ?_, ?_, ?_, hlen, hslots⟩
  · rw [hrec, hrows]
  · rw [hrec]
    exact (hp.map Record.key).nodup_iff.2 (nodup_map_key_mergeState ps)
  · rw [Dataset.length, hrec, ← Table.length_rows, ← hrows, List.length_map]
  · have hreport : m.report.records = (mergeState ps).records.length := records_report _ _
    rw [Dataset.length, hrec, hp.length_eq, hreport]
  · have hs : ∀ s : Source, (Table.order (mergeState ps).records).countP (fun r => r.source = s) =
        (mergeState ps).records.countP fun r => r.source = s := fun s => hp.countP_eq _
    simp only [Dataset.countBySource, hrec, hs]
    rfl

end ApiRules
