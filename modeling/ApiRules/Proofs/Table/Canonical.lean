import ApiRules.Proofs.Archive.Order
import ApiRules.Proofs.Merge.Policy
import ApiRules.Proofs.Table.Arrangement

/-!
Tables in canonical form. Whatever a merge makes has one place for each thing it says: everything ascends, nothing
is empty, and patterns and methods are spelled canonically.
-/
namespace ApiRules

namespace Table

/-- The pattern is spelled canonically, and there are rules, of different kinds and in the order of the kinds. -/
structure Entry.Canonical (e : Entry) : Prop where
  pattern : ∃ p, Pattern.parse e.pattern = .ok p ∧ p.text = e.pattern
  rules_ne_nil : e.rules ≠ []
  rules : e.rules.Pairwise fun a b => a.payload.kind.rank < b.payload.kind.rank

/-- There are entries, with different patterns and in the order of the bytes of the patterns. -/
structure Group.Canonical (g : Group) : Prop where
  entries_ne_nil : g.entries ≠ []
  entries : g.entries.Pairwise fun a b => Archive.ofText a.pattern < Archive.ofText b.pattern
  canonical : ∀ e ∈ g.entries, e.Canonical

/-- The declaration is about a method before that of the other one, or about an argument of it before the other. -/
def Typedef.Precedes (t u : Typedef) : Prop :=
  ∃ m n, Signature.parse t.method = .ok m ∧ Signature.parse u.method = .ok n ∧
    (m.compare n).then (compare t.argument u.argument) = .lt

/-- Groups, declarations and constants ascend, by source, by method and argument, and by the bytes of the name. -/
structure Canonical (t : Table) : Prop where
  groups : t.groups.Pairwise fun g h => g.source.rank < h.source.rank
  canonical : ∀ g ∈ t.groups, g.Canonical
  typedefs : t.typedefs.Pairwise Typedef.Precedes
  methods : ∀ d ∈ t.typedefs, ∃ m, Signature.parse d.method = .ok m ∧ m.text = d.method
  constants : t.constants.Pairwise fun a b => Archive.ofText a.name < Archive.ofText b.name

section Records

variable {rs : List Record}

theorem pairwise_entryOrder (h : (rs.map Record.key).Nodup) (p : Pattern) :
    (entryOrder rs p).Pairwise fun a b => a.kind.rank < b.kind.rank := by
  have hkinds : ((rs.filter fun r => r.pattern = p).map fun r => r.kind.rank).Nodup := by
    apply List.Nodup.map_on
    · intro a ha b hb hr
      obtain ⟨ha, hpa⟩ := List.mem_filter.1 ha
      obtain ⟨hb, hpb⟩ := List.mem_filter.1 hb
      have hp : a.pattern = b.pattern := (of_decide_eq_true hpa).trans (of_decide_eq_true hpb).symm
      exact List.inj_on_of_nodup_map h ha hb (Prod.ext hp (Kind.rank_injective hr))
    · exact h.of_map.filter _
  have hsorted := Sequences.pairwise_mergeSort_ne (Sequences.le_trans_key fun r : Record => r.kind.rank)
    (Sequences.le_total_key fun r : Record => r.kind.rank) hkinds
  exact hsorted.imp fun hab => Nat.lt_of_le_of_ne (of_decide_eq_true hab.1) hab.2

theorem canonical_entryOf (h : (rs.map Record.key).Nodup) {p : Pattern} (hp : p ∈ patternsOf rs) :
    (entryOf rs p).Canonical where
  pattern := ⟨p, Pattern.parse_text p, rfl⟩
  rules_ne_nil := by
    obtain ⟨r, hr, hrp⟩ := mem_patternsOf.1 hp
    have hm : r ∈ entryOrder rs p := mem_entryOrder.2 ⟨hr, hrp⟩
    exact fun hnil => List.ne_nil_of_mem hm (List.map_eq_nil_iff.1 hnil)
  rules := List.pairwise_map.2 (pairwise_entryOrder h p)

theorem pairwise_patternsOf (rs : List Record) :
    (patternsOf rs).Pairwise fun p q => Archive.ofText p.text < Archive.ofText q.text := by
  have htexts : ((rs.map Record.pattern).eraseDups.map Pattern.text).Nodup :=
    (Sequences.nodup_eraseDups _).map Pattern.text_injective
  have hsorted := Sequences.pairwise_mergeSort_ne Pattern.text_le_trans Pattern.text_le_total htexts
  exact hsorted.imp fun hpq => Archive.ofText_lt_iff.2 (lt_of_le_of_ne (of_decide_eq_true hpq.1) hpq.2)

theorem canonical_groupOf? (h : (rs.map Record.key).Nodup) {s : Source} {g : Group}
    (hg : groupOf? rs s = some g) : g.Canonical := by
  simp only [groupOf?] at hg
  split at hg
  · cases hg
  · rename_i hne
    obtain rfl := Option.some.inj hg
    refine ⟨?_, ?_, ?_⟩
    · obtain ⟨r, hr⟩ := List.exists_mem_of_ne_nil _ hne
      have hp := mem_patternsOf.2 ⟨r, hr, rfl⟩
      exact fun hnil => List.ne_nil_of_mem hp (List.map_eq_nil_iff.1 hnil)
    · exact List.pairwise_map.2 (pairwise_patternsOf _)
    · intro e he
      obtain ⟨p, hp, rfl⟩ := List.mem_map.1 he
      exact canonical_entryOf (h.sublist (List.filter_sublist.map _)) hp

theorem pairwise_groupsOf (rs : List Record) :
    (groupsOf rs).Pairwise fun g h => g.source.rank < h.source.rank := by
  have hall : Source.all.Pairwise fun s s' => s.rank < s'.rank := by decide
  apply hall.filterMap
  intro s s' hlt g hg g' hg'
  rw [source_of_groupOf? hg, source_of_groupOf? hg']
  exact hlt

end Records

theorem pairwise_typedefsOf {ds : List Declaration} (h : (ds.map Declaration.key).Nodup)
    (hc : ∀ d ∈ ds, d.Canonical) : (typedefsOf ds).Pairwise Typedef.Precedes := by
  have hsorted := Sequences.pairwise_mergeSort_ne (fun a b c => Std.TransCmp.isLE_trans) Declaration.compare_total h
  apply List.pairwise_map.2
  apply hsorted.imp_of_mem
  intro a b ha hb ⟨hle, hne⟩
  have hma := hc a (List.mem_mergeSort.1 ha)
  have hmb := hc b (List.mem_mergeSort.1 hb)
  refine ⟨a.method, b.method, hma.parse_method, hmb.parse_method, ?_⟩
  have hlt : a.compare b ≠ .eq := mt Declaration.key_eq_of_compare hne
  exact Ordering.isLE_iff_eq_lt_or_eq_eq.1 hle |>.resolve_right hlt

end Table

/-- Every merged table is in canonical form. -/
theorem merged_table_canonical (ps : List Partial) : (merge ps).table.Canonical where
  groups := Table.pairwise_groupsOf _
  canonical := by
    intro g hg
    obtain ⟨s, -, hs⟩ := List.mem_filterMap.1 hg
    exact Table.canonical_groupOf? (nodup_map_key_mergeState ps) hs
  typedefs := Table.pairwise_typedefsOf (nodup_map_key_declarations ps) fun d => canonical_of_mem_declarations
  methods := by
    intro t ht
    obtain ⟨sorted, hp, htypedefs⟩ := exists_perm_typedefs_merge ps
    rw [htypedefs] at ht
    obtain ⟨d, hd, rfl⟩ := List.mem_map.1 ht
    have hc := canonical_of_mem_declarations (hp.mem_iff.1 hd)
    exact ⟨d.method, hc.parse_method, hc.method_eq.symm⟩
  constants := by
    apply List.pairwise_map.2
    exact (mergeState ps).constants.ascending.imp Archive.ofText_lt_iff.2

end ApiRules
