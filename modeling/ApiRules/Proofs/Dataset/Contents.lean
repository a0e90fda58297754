import ApiRules.Proofs.Dataset.Loading

/-!
What a loaded dataset contains: the records that its table has, no two of them with one key. How the table
arranges them plays no part.
-/
namespace ApiRules

namespace Table

/-- A rule of the table reads as this record. -/
def Has (t : Table) (r : Record) : Prop :=
  ∃ g ∈ t.groups, ∃ e ∈ g.entries, ∃ rule ∈ e.rules, Pattern.parse e.pattern = .ok r.pattern ∧
    r.payload = rule.payload ∧ r.source = g.source ∧ r.artifact = rule.artifact

theorem mem_records_entry {e : Entry} {source : Source} {rs : List Record}
    (h : (e.records source).toOption = some rs) {r : Record} :
    r ∈ rs ↔ ∃ rule ∈ e.rules, Pattern.parse e.pattern = .ok r.pattern ∧
      r.payload = rule.payload ∧ r.source = source ∧ r.artifact = rule.artifact := by
  rw [Entry.records] at h
  cases hp : Pattern.parse e.pattern with
  | error error =>
    rw [hp] at h
    cases h
  | ok pattern =>
    rw [hp] at h
    obtain rfl := Option.some.inj h
    rw [List.mem_map]
    constructor
    · rintro ⟨rule, hrule, rfl⟩
      exact ⟨rule, hrule, rfl, rfl, rfl, rfl⟩
    · rintro ⟨rule, hrule, hpat, hpay, hsrc, hart⟩
      obtain rfl := Except.ok.inj hpat
      exact ⟨rule, hrule, by rw [← hpay, ← hsrc, ← hart]⟩

theorem mem_records_group {g : Group} {rs : List Record} (h : g.records? = some rs) {r : Record} :
    r ∈ rs ↔ ∃ e ∈ g.entries, ∃ rule ∈ e.rules, Pattern.parse e.pattern = .ok r.pattern ∧
      r.payload = rule.payload ∧ r.source = g.source ∧ r.artifact = rule.artifact := by
  obtain ⟨rss, hrss, rfl⟩ := Option.map_eq_some_iff.1 h
  rw [Sequences.mem_flatten_of_mapM hrss]
  apply exists_congr
  intro e
  apply and_congr_right
  intro he
  obtain ⟨rs, hrs⟩ := Sequences.exists_of_mapM hrss he
  simp only [hrs, Option.some.injEq, exists_eq_left']
  exact mem_records_entry hrs

theorem mem_records?_iff {t : Table} {rs : List Record} (h : t.records? = some rs) {r : Record} :
    r ∈ rs ↔ t.Has r := by
  obtain ⟨rss, hrss, rfl⟩ := Option.map_eq_some_iff.1 h
  rw [Sequences.mem_flatten_of_mapM hrss]
  apply exists_congr
  intro g
  apply and_congr_right
  intro hg
  obtain ⟨rs, hrs⟩ := Sequences.exists_of_mapM hrss hg
  simp only [hrs, Option.some.injEq, exists_eq_left']
  exact mem_records_group hrs

end Table

namespace Dataset

/-- The dataset has the records of the table, indexed and with different keys. -/
structure Represents (d : Dataset) (t : Table) : Prop where
  indexed : d.Indexed
  nodup_keys : (d.records.map Record.key).Nodup
  mem_records : ∀ r, r ∈ d.records ↔ t.Has r

variable {d : Dataset} {t : Table}

theorem represents_of_ofTable {digest : Option Digest} (h : ofTable t digest = .ok d) :
    d.Represents t := by
  obtain ⟨rs, declared, hrs, hkeys, -, -, rfl⟩ := ofTable_eq_ok.1 h
  refine ⟨indexed_made digest rs declared, ?_, fun r => ?_⟩
  · rwa [records_made]
  · rw [records_made]
    exact Table.mem_records?_iff hrs

theorem Represents.mem_lookupExact (h : d.Represents t) {s : Signature} {r : Record} :
    r ∈ d.lookupExact s ↔ t.Has r ∧ r.pattern = .exact s := by
  rw [h.indexed.lookupExact, List.mem_filter, h.mem_records, decide_eq_true_eq]

theorem Represents.mem_lookupOwner (h : d.Represents t) {o : Owner} {r : Record} :
    r ∈ d.lookupOwner o ↔ t.Has r ∧ r.pattern = .under o := by
  rw [h.indexed.lookupOwner, List.mem_filter, h.mem_records, decide_eq_true_eq]

/-- The records of one pattern have different kinds. -/
theorem Represents.pairwise_kind_ne (h : d.Represents t) (p : Pattern) :
    (d.records.filter fun r => r.pattern = p).Pairwise fun r q => r.kind ≠ q.kind := by
  have hkeys : d.records.Pairwise fun r q => r.key ≠ q.key := List.pairwise_map.1 h.nodup_keys
  apply (hkeys.filter _).imp_of_mem
  intro r q hr hq hne hk
  have hrp : r.pattern = p := by simpa using (List.mem_filter.1 hr).2
  have hqp : q.pattern = p := by simpa using (List.mem_filter.1 hq).2
  exact hne (Prod.ext (hrp.trans hqp.symm) hk)

end Dataset

end ApiRules
