import ApiRules.Proofs.Merge.Declarations
import ApiRules.Proofs.Reordering
import ApiRules.Proofs.Rule.Comparison
import ApiRules.Proofs.Signature.Order
import ApiRules.Proofs.Table.Rows

/-!
The arrangement of a table. It depends on which records and declarations are listed, and not on the order in
which they were kept.
-/
namespace ApiRules

theorem Kind.rank_injective : Function.Injective Kind.rank := by
  intro a b h
  cases a <;> cases b <;> first | rfl | cases h

namespace Pattern

theorem text_le_trans (a b c : Pattern) (hab : decide (a.text ≤ b.text) = true)
    (hbc : decide (b.text ≤ c.text) = true) : decide (a.text ≤ c.text) = true :=
  decide_eq_true (String.le_trans (of_decide_eq_true hab) (of_decide_eq_true hbc))

theorem text_le_total (a b : Pattern) : (decide (a.text ≤ b.text) || decide (b.text ≤ a.text)) = true := by
  simpa using String.le_total a.text b.text

end Pattern

namespace Declaration

/-- Where declarations stand: by method, then by argument. -/
protected def compare (a b : Declaration) : Ordering :=
  (a.method.compare b.method).then (compare a.typedef.argument b.typedef.argument)

instance : Std.TransCmp Declaration.compare :=
  inferInstanceAs (Std.TransCmp (compareLex
    (compareLex (compareOn fun d : Declaration => d.method.owner.chars)
      (compareLex (compareOn fun d : Declaration => d.method.rank)
        (compareOn fun d : Declaration => d.method.words)))
    (compareOn fun d : Declaration => d.typedef.argument)))

theorem key_eq_of_compare {a b : Declaration} (h : a.compare b = .eq) : a.key = b.key := by
  simp only [Declaration.compare, Ordering.then_eq_eq, Std.LawfulEqCmp.compare_eq_iff_eq] at h
  exact Prod.ext (Signature.eq_of_compare h.1) h.2

theorem compare_total (a b : Declaration) : ((a.compare b).isLE || (b.compare a).isLE) = true := by
  have hs : a.compare b = (b.compare a).swap := Std.OrientedCmp.eq_swap
  rw [hs]
  cases b.compare a <;> rfl

end Declaration

namespace Table

section Records

variable {rs rs' : List Record}

theorem entryOf_eq_of_perm (h : rs.Perm rs') (hk : (rs.map Record.key).Nodup) : entryOf rs = entryOf rs' := by
  funext p
  have hsort : entryOrder rs p = entryOrder rs' p := by
    apply Sequences.mergeSort_eq_of_perm (Sequences.le_trans_key fun r : Record => r.kind.rank)
      (Sequences.le_total_key fun r : Record => r.kind.rank) (h.filter _)
    intro a b ha hb hab hba
    obtain ⟨ha, hpa⟩ := List.mem_filter.1 ha
    obtain ⟨hb, hpb⟩ := List.mem_filter.1 hb
    have hp : a.pattern = b.pattern := (of_decide_eq_true hpa).trans (of_decide_eq_true hpb).symm
    have hr := Nat.le_antisymm (of_decide_eq_true hab) (of_decide_eq_true hba)
    exact List.inj_on_of_nodup_map hk ha hb (Prod.ext hp (Kind.rank_injective hr))
  rw [entryOf, entryOf]
  exact congrArg (fun own => Entry.mk p.text (own.map fun r => ⟨r.payload, r.artifact⟩)) hsort

theorem patternsOf_eq_of_perm (h : rs.Perm rs') : patternsOf rs = patternsOf rs' := by
  have hp : (rs.map Record.pattern).eraseDups.Perm (rs'.map Record.pattern).eraseDups := by
    apply (List.perm_ext_iff_of_nodup (Sequences.nodup_eraseDups _) (Sequences.nodup_eraseDups _)).2
    intro p
    rw [List.mem_eraseDups, List.mem_eraseDups, (h.map Record.pattern).mem_iff]
  apply Sequences.mergeSort_eq_of_perm Pattern.text_le_trans Pattern.text_le_total hp
  intro a b _ _ hab hba
  exact Pattern.text_injective (String.le_antisymm (of_decide_eq_true hab) (of_decide_eq_true hba))

theorem groupsOf_eq_of_perm (h : rs.Perm rs') (hk : (rs.map Record.key).Nodup) :
    groupsOf rs = groupsOf rs' := by
  apply List.filterMap_congr
  intro s _
  have hown := h.filter fun r => r.source = s
  have hnil : (rs.filter fun r => r.source = s) = [] ↔ (rs'.filter fun r => r.source = s) = [] := by
    constructor
    · intro hn
      exact (hn ▸ hown).symm.eq_nil
    · intro hn
      exact (hn ▸ hown).eq_nil
  have hkeys : ((rs.filter fun r => r.source = s).map Record.key).Nodup :=
    hk.sublist (List.filter_sublist.map _)
  simp only [groupOf?, hnil, patternsOf_eq_of_perm hown, entryOf_eq_of_perm hown hkeys]

end Records

theorem typedefsOf_eq_of_perm {ds ds' : List Declaration} (h : ds.Perm ds')
    (hk : (ds.map Declaration.key).Nodup) : typedefsOf ds = typedefsOf ds' := by
  have hsort : (ds.mergeSort fun a b => (a.compare b).isLE) = ds'.mergeSort fun a b => (a.compare b).isLE := by
    apply Sequences.mergeSort_eq_of_perm (fun a b c => Std.TransCmp.isLE_trans) Declaration.compare_total h
    intro a b ha hb hab hba
    have he : a.compare b = .eq := Std.OrientedCmp.isLE_antisymm hab hba
    exact List.inj_on_of_nodup_map hk ha hb (Declaration.key_eq_of_compare he)
  exact congrArg (List.map Declaration.typedef) hsort

end Table

end ApiRules
