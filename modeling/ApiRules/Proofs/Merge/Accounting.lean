import ApiRules.Proofs.Merge.Arrival
import ApiRules.Proofs.Merge.Loading

/-!
The accounts of a merge. Each record that is taken up is kept or meets the one that is kept, each contribution
that is left out is counted, and each count is the number of events of its sort. So the report accounts for all
raw records.
-/
namespace ApiRules

namespace Partial

/-- The pattern can be read. -/
def Record.isReadable (r : Partial.Record) : Bool := (Pattern.parse r.pattern).isOk

/-- The method can be read, and is a method. -/
def Typedef.isReadable (t : Partial.Typedef) : Bool :=
  match Signature.parse t.method with
  | .ok method => method.isMethod
  | .error _ => false

end Partial

/-- How many rules a group has. -/
def Table.Group.ruleCount (g : Table.Group) : Nat := (g.entries.flatMap Table.Entry.rules).length

/-- The message begins with this text. -/
def MergeEvent.begins (text : String) (e : MergeEvent) : Bool :=
  text.toList.isPrefixOf e.entry.message.toList

namespace MergeCounts

/-- How many events there are of each sort. -/
def ofEvents (es : List MergeEvent) : MergeCounts where
  conflicts := es.countP (·.begins "conflicting record discarded")
  duplicates := es.countP (·.begins "identical record")
  intersections := es.countP (·.begins "intersecting API level bounds")
  skipped := es.countP (·.begins "skipped ")
  typedefConflicts := es.countP (·.begins "typedef conflict")

theorem note_ofEvents (es : List MergeEvent) (e : MergeEvent) :
    (ofEvents es).note e = ofEvents (es ++ [e]) := by
  cases e <;> simp [ofEvents, note, MergeEvent.begins, MergeEvent.entry, List.isPrefixOf]

theorem foldl_note_ofEvents (es fs : List MergeEvent) :
    fs.foldl note (ofEvents es) = ofEvents (es ++ fs) := by
  induction fs generalizing es with
  | nil => rw [List.foldl_nil, List.append_nil]
  | cons e fs ih => rw [List.foldl_cons, note_ofEvents, ih, List.append_assoc, List.singleton_append]

end MergeCounts

theorem Record.length_settle (r : Record) (kept : List Record) :
    (r.settle kept).length = kept.length + if (kept.find? r.rivals).isSome then 0 else 1 := by
  induction kept with
  | nil => rfl
  | cons q kept ih =>
    rw [settle]
    by_cases hr : r.rivals q = true
    · simp [hr]
    · simp only [hr, Bool.false_eq_true, if_false, List.length_cons, ih, List.find?_cons_of_neg,
        not_false_eq_true]
      omega

namespace MergeState

/-- How many records were taken up: those that are kept, and those that met a kept one. -/
def taken (m : MergeState) : Nat := m.records.length + m.counts.met

theorem taken_addRecord (m : MergeState) (r : Record) : (m.addRecord r).taken = m.taken + 1 := by
  obtain ⟨es, hes, hadd⟩ := exists_addRecord r (m.records.find? r.rivals)
  rw [hadd m rfl, taken, taken, Record.length_settle, hes.met]
  cases (m.records.find? r.rivals).isSome
  · exact Nat.add_right_comm _ _ _
  · exact (Nat.add_assoc _ _ _).symm

theorem skipped_addRecord (m : MergeState) (r : Record) :
    (m.addRecord r).counts.skipped = m.counts.skipped := by
  obtain ⟨es, hes, hadd⟩ := exists_addRecord r (m.records.find? r.rivals)
  rw [hadd m rfl]
  exact hes.skipped m.counts

theorem counts_addDeclaration (m : MergeState) (d : Declaration) :
    ∃ n, (m.addDeclaration d).counts = { m.counts with typedefConflicts := n } := by
  rw [addDeclaration]
  split
  · exact ⟨_, rfl⟩
  · split <;> exact ⟨_, rfl⟩

theorem counts_addConstant (m : MergeState) (source : Source) (name value : String) :
    (m.addConstant source name value).counts = m.counts := by
  rw [addConstant]
  split
  · rfl
  · split <;> rfl

/-- A step takes up a record if the contribution is one that can be read. -/
theorem taken_add (m : MergeState) (c : Contribution) :
    (m.add c).taken = m.taken + c.record?.isSome.toNat := by
  cases c.treated with
  | record r hrecord _ _ _ hadd =>
    rw [hadd, hrecord]
    exact taken_addRecord m r
  | declaration d hrecord _ _ _ hadd =>
    obtain ⟨n, hn⟩ := counts_addDeclaration m d
    rw [hadd, hrecord, taken, records_addDeclaration, hn]
    rfl
  | literal source name value h =>
    rw [h, add, taken, records_addConstant, counts_addConstant]
    rfl
  | skipped e hrecord _ _ _ _ hadd =>
    rw [hadd, hrecord]
    rfl

/-- A step leaves out what has no key. -/
theorem skipped_add (m : MergeState) (c : Contribution) :
    (m.add c).counts.skipped = m.counts.skipped + c.key?.isNone.toNat := by
  cases c.treated with
  | record r _ _ _ hkey hadd =>
    rw [hadd, hkey]
    exact skipped_addRecord m r
  | declaration d _ _ _ hkey hadd =>
    obtain ⟨n, hn⟩ := counts_addDeclaration m d
    rw [hadd, hkey, hn]
    rfl
  | literal source name value h =>
    rw [h]
    exact congrArg MergeCounts.skipped (counts_addConstant m source name value)
  | skipped e _ _ _ hkey _ hadd =>
    rw [hadd, hkey]
    rfl

/-- Counts of the events stay counts of the events. -/
theorem counts_add {m : MergeState} (h : m.counts = .ofEvents m.events) (c : Contribution) :
    (m.add c).counts = .ofEvents (m.add c).events := by
  obtain ⟨es, hes⟩ := (touches_add c).log m
  obtain ⟨he, hc⟩ := hes m fun _ _ => rfl
  rw [hc, he, h, MergeCounts.foldl_note_ofEvents]

theorem counts_foldl_add {m : MergeState} (h : m.counts = .ofEvents m.events) (cs : List Contribution) :
    (cs.foldl add m).counts = .ofEvents (cs.foldl add m).events := by
  induction cs generalizing m with
  | nil => exact h
  | cons c cs ih => exact ih (counts_add h c)

end MergeState

namespace Partial

theorem countP_allContributions (ps : List Partial) (p : Contribution → Bool) :
    (allContributions ps).countP p = (ps.flatMap contributions).countP p :=
  ((List.mergeSort_perm ps _).flatMap_right contributions).countP_eq p

theorem isSome_record? (p : Partial) (r : Partial.Record) (artifact : Option String) :
    (Contribution.record p.source r.pattern r.payload artifact).record?.isSome = r.isReadable := by
  simp only [Contribution.record?, Record.isReadable]
  cases Pattern.parse r.pattern <;> rfl

theorem isNone_key?_record (p : Partial) (r : Partial.Record) (artifact : Option String) :
    (Contribution.record p.source r.pattern r.payload artifact).key?.isNone = !r.isReadable := by
  simp only [Contribution.key?, Contribution.record?, Contribution.declaration?, Record.isReadable]
  cases Pattern.parse r.pattern <;> rfl

theorem isNone_key?_typedef (p : Partial) (t : Partial.Typedef) (artifact : Option String) :
    (Contribution.typedef ⟨t.method, t.argument, t.kind, t.flag, t.constants, p.source,
      artifact⟩).key?.isNone = !t.isReadable := by
  simp only [Contribution.key?, Contribution.record?, Contribution.declaration?, Typedef.isReadable]
  cases Signature.parse t.method with
  | error e => rfl
  | ok method => cases hm : method.isMethod <;> simp [hm]

theorem countP_record?_contributions (p : Partial) :
    p.contributions.countP (·.record?.isSome) = p.records.countP Record.isReadable := by
  have htypedef : ∀ t, (Contribution.typedef t).record? = none := fun _ => rfl
  have hconstant : ∀ s n v, (Contribution.constant s n v).record? = none := fun _ _ _ => rfl
  simp only [contributions, List.countP_append, List.countP_map, Function.comp_def, isSome_record?, htypedef,
    hconstant, Option.isSome_none, List.countP_false]
  rfl

theorem countP_key?_contributions (p : Partial) : p.contributions.countP (·.key?.isNone) =
    (p.records.countP fun r => !r.isReadable) + p.typedefs.countP fun t => !t.isReadable := by
  have hconstant : ∀ s n v, (Contribution.constant s n v).key?.isNone = false := fun _ _ _ => rfl
  simp only [contributions, List.countP_append, List.countP_map, Function.comp_def, isNone_key?_record,
    isNone_key?_typedef, hconstant, List.countP_false]
  rfl

/-- The records that are taken up are those that can be read. -/
theorem countP_record? (ps : List Partial) : (allContributions ps).countP (·.record?.isSome) =
    (ps.flatMap Partial.records).countP Record.isReadable := by
  rw [countP_allContributions]
  induction ps with
  | nil => rfl
  | cons p ps ih => simp only [List.flatMap_cons, List.countP_append, countP_record?_contributions, ih]

/-- What is left out is what cannot be read. -/
theorem countP_key? (ps : List Partial) : (allContributions ps).countP (·.key?.isNone) =
    ((ps.flatMap Partial.records).countP fun r => !r.isReadable) +
      (ps.flatMap Partial.typedefs).countP fun t => !t.isReadable := by
  rw [countP_allContributions]
  induction ps with
  | nil => rfl
  | cons p ps ih =>
    simp only [List.flatMap_cons, List.countP_append, countP_key?_contributions, ih]
    omega

end Partial

namespace Table

theorem length_rows_group (g : Group) : g.rows.length = g.ruleCount := by
  simp only [Group.rows, Group.ruleCount, Entry.rows, List.length_flatMap, List.length_map]

theorem ruleCount_groupOf? {rs : List Record} {s : Source} {g : Group} (h : groupOf? rs s = some g) :
    g.ruleCount = rs.countP fun r => r.source = s := by
  have hrows := rows_groupOf? rs s
  rw [h, Option.toList_some, List.flatMap_singleton] at hrows
  rw [← length_rows_group, hrows, List.length_map, (groupOrder_perm rs s).length_eq,
    List.countP_eq_length_filter]

theorem ruleCount_ne_zero {rs : List Record} {s : Source} {g : Group} (h : groupOf? rs s = some g) :
    g.ruleCount ≠ 0 := by
  rw [ruleCount_groupOf? h, List.countP_eq_length_filter, ne_eq, List.length_eq_zero_iff]
  intro hnil
  rw [groupOf?, if_pos hnil] at h
  cases h

end Table

theorem recordsBySource_report (m : MergeState) (inputs : Nat) :
    (m.report inputs).recordsBySource = m.table.groups.map fun g => (g.source, g.ruleCount) := by
  simp only [MergeState.report, MergeState.table, Table.groupsOf, List.map_filterMap]
  rw [← List.filterMap_eq_filter, List.filterMap_map]
  apply List.filterMap_congr
  intro s _
  cases hs : Table.groupOf? m.records s with
  | none =>
    have hcount : (m.records.countP fun r => r.source = s) = 0 := by
      rw [List.countP_eq_length_filter, ← (Table.groupOrder_perm m.records s).length_eq,
        Table.groupOrder_eq_nil hs]
      rfl
    simp [hcount]
  | some g =>
    have hcount := Table.ruleCount_groupOf? hs
    have hne := Table.ruleCount_ne_zero hs
    simp [Table.source_of_groupOf? hs, ← hcount, hne]

/-- A merge accounts for everything that it is given. The raw records are those that are left, those that met
another one, and those whose pattern cannot be read; what cannot be read is skipped; the records of each source
are the rules in its group; and each count is the number of events of its sort. -/
theorem merge_accounts_for_records (ps : List Partial) :
    let m := merge ps
    let raw := ps.flatMap Partial.records
    let unread := raw.countP fun r => !r.isReadable
    let counts := m.report.counts
    raw.length = m.report.records + counts.conflicts + counts.duplicates + counts.intersections + unread ∧
    counts.skipped = unread + (ps.flatMap Partial.typedefs).countP (fun t => !t.isReadable) ∧
    m.report.recordsBySource = m.table.groups.map (fun g => (g.source, g.ruleCount)) ∧
    (m.table.groups.map Table.Group.source).Nodup ∧ (∀ g ∈ m.table.groups, g.ruleCount ≠ 0) ∧
    m.report.records = m.table.recordCount ∧
    m.report.typedefs = m.table.typedefs.length ∧ m.report.constants = m.table.constants.length ∧
    counts.conflicts = m.events.countP (·.begins "conflicting record discarded") ∧
    counts.duplicates = m.events.countP (·.begins "identical record") ∧
    counts.intersections = m.events.countP (·.begins "intersecting API level bounds") ∧
    counts.typedefConflicts = m.events.countP (·.begins "typedef conflict") ∧
    counts.skipped = m.events.countP (·.begins "skipped ") := by
  intro m raw unread counts
  have hreadable : raw.length = raw.countP Partial.Record.isReadable + unread := by
    simpa using List.length_eq_countP_add_countP Partial.Record.isReadable (l := raw)
  have htaken := Sequences.foldl_add_countP MergeState.taken_add (Partial.allContributions ps) .empty
  have hskipped := Sequences.foldl_add_countP (f := fun m : MergeState => m.counts.skipped)
    MergeState.skipped_add (Partial.allContributions ps) .empty
  have hevents := MergeState.counts_foldl_add (m := .empty) rfl (Partial.allContributions ps)
  rw [Partial.countP_record?] at htaken
  rw [Partial.countP_key?] at hskipped
  have hcounts : counts = .ofEvents m.events := hevents
  have hrecords : m.report.records = (mergeState ps).records.length := records_report _ _
  have hrows : m.table.recordCount = (mergeState ps).records.length := by
    rw [← Table.length_rows, ← (Table.order_perm (mergeState ps).records).length_eq,
      ← List.length_map Record.row]
    exact congrArg List.length (Table.rows_table (mergeState ps))
  refine ⟨?_, ?_, recordsBySource_report _ _, Table.nodup_sources_groupsOf _, ?_, hrecords.trans hrows.symm,
    ?_, ?_, ?_⟩
  · have htotal : (mergeState ps).records.length + counts.met = raw.countP Partial.Record.isReadable :=
      htaken.trans (Nat.zero_add _)
    rw [hreadable, ← htotal, hrecords, MergeCounts.met]
    omega
  · exact hskipped.trans (Nat.zero_add _)
  · intro g hg
    obtain ⟨s, -, hs⟩ := List.mem_filterMap.1 hg
    exact Table.ruleCount_ne_zero hs
  · have htypedefs : m.table.typedefs.length = (mergeState ps).declarations.length := by
      rw [← List.length_mergeSort (mergeState ps).declarations]
      exact List.length_map _
    exact htypedefs.symm
  · exact (List.length_map _).symm
  · rw [hcounts]
    exact ⟨rfl, rfl, rfl, rfl, rfl⟩

end ApiRules
