import ApiRules.Proofs.Merge.Precedence
import ApiRules.Proofs.Rule.Comparison

/-!
The records that a merge keeps. They have different keys, and the one with a given key is the tightest of
the statements about it, of equal ones the first.
-/
namespace ApiRules

namespace Record

theorem map_key_settle (r : Record) (kept : List Record) :
    (r.settle kept).map key =
      if r.key ∈ kept.map key then kept.map key else (kept ++ [r]).map key := by
  induction kept with
  | nil => rfl
  | cons q kept ih =>
    rw [settle]
    by_cases hr : r.rivals q = true
    · have hk := rivals_iff.1 hr
      rw [if_pos hr, List.map_cons, List.map_cons, hk, if_pos List.mem_cons_self]
      by_cases ht : r.tightens q = true <;> simp [ht, hk]
    · have hk : ¬r.key = q.key := fun h => hr (rivals_iff.2 h)
      rw [if_neg hr, List.map_cons, ih]
      by_cases hm : r.key ∈ kept.map key <;> simp [hm, hk]

theorem nodup_map_key_settle {kept : List Record} (h : (kept.map key).Nodup) (r : Record) :
    ((r.settle kept).map key).Nodup := by
  rw [map_key_settle]
  by_cases hm : r.key ∈ kept.map key
  · rwa [if_pos hm]
  · rw [if_neg hm]
    exact Sequences.nodup_map_concat.2 ⟨h, hm⟩

/-- One more record changes what is kept about its own key, and nothing else. -/
theorem find?_settle (r : Record) (kept : List Record) (k : Pattern × Kind) :
    (r.settle kept).find? (fun q => q.key = k) =
      if r.key = k then
        some (((kept.find? fun q => q.key = k).filter fun q => !r.tightens q).getD r)
      else kept.find? fun q => q.key = k := by
  induction kept with
  | nil => by_cases hk : r.key = k <;> simp [settle, hk]
  | cons q kept ih =>
    rw [settle]
    by_cases hr : r.rivals q = true
    · have hq := rivals_iff.1 hr
      rw [if_pos hr]
      by_cases hk : r.key = k
      · have hqk : q.key = k := hq ▸ hk
        by_cases ht : r.tightens q = true <;> simp [ht, hk, hqk, Option.filter]
      · have hqk : ¬q.key = k := hq ▸ hk
        by_cases ht : r.tightens q = true <;> simp [ht, hk, hqk]
    · rw [if_neg hr]
      by_cases hqk : q.key = k
      · have hk : ¬r.key = k := fun h => hr (rivals_iff.2 (h.trans hqk.symm))
        simp [hk, hqk]
      · rw [List.find?_cons_of_neg (by simpa using hqk), List.find?_cons_of_neg (by simpa using hqk), ih]

/-- The records kept of a sequence. -/
def settleAll (rs : List Record) : List Record := rs.foldl (fun kept r => r.settle kept) []

theorem settleAll_concat (rs : List Record) (r : Record) :
    settleAll (rs ++ [r]) = r.settle (settleAll rs) := by
  rw [settleAll, List.foldl_append]
  rfl

theorem nodup_map_key_settleAll (rs : List Record) : ((settleAll rs).map key).Nodup := by
  induction rs using List.reverseRecOn with
  | nil => simp [settleAll]
  | append_singleton rs r ih =>
    rw [settleAll_concat]
    exact nodup_map_key_settle ih r

theorem find?_settleAll (rs : List Record) (k : Pattern × Kind) :
    (settleAll rs).find? (fun q => q.key = k) =
      (rs.filter fun q => q.key = k).argmax fun q => q.payload.tightness := by
  induction rs using List.reverseRecOn with
  | nil => rfl
  | append_singleton rs r ih =>
    rw [settleAll_concat, find?_settle, List.filter_append]
    by_cases hk : r.key = k
    · rw [if_pos hk, List.filter_cons_of_pos (by simpa using hk), List.filter_nil, List.argmax_concat, ← ih]
      cases hq : (settleAll rs).find? fun q => q.key = k with
      | none => rfl
      | some q =>
        have hqk : q.key = k := by simpa using List.find?_some hq
        have ht := tightens_iff (kind_eq_of_key_eq (hk.trans hqk.symm))
        by_cases hlt : q.payload.tightness < r.payload.tightness
        · simp [hlt, ht.2 hlt, Option.filter]
        · simp [hlt, mt ht.1 hlt, Option.filter]
    · rw [if_neg hk, List.filter_cons_of_neg (by simpa using hk), List.filter_nil, List.append_nil, ih]

end Record

namespace MergeState

theorem records_addDeclaration (m : MergeState) (d : Declaration) :
    (m.addDeclaration d).records = m.records := by
  rw [addDeclaration]
  split
  · rfl
  · split <;> rfl

theorem records_addConstant (m : MergeState) (source : Source) (name value : String) :
    (m.addConstant source name value).records = m.records := by
  rw [addConstant]
  split
  · rfl
  · split <;> rfl

theorem records_add (m : MergeState) (c : Contribution) :
    (m.add c).records = (c.record?.map fun r => r.settle m.records).getD m.records := by
  cases c.treated with
  | record r hrecord _ _ _ hadd =>
    rw [hadd, hrecord]
    rfl
  | declaration d hrecord _ _ _ hadd =>
    rw [hadd, hrecord]
    exact records_addDeclaration m d
  | literal source name value h =>
    rw [h]
    exact records_addConstant m source name value
  | skipped e hrecord _ _ _ _ hadd =>
    rw [hadd, hrecord]
    rfl

theorem records_foldl_add (cs : List Contribution) (m : MergeState) :
    (cs.foldl add m).records =
      (cs.filterMap Contribution.record?).foldl (fun kept r => r.settle kept) m.records := by
  induction cs generalizing m with
  | nil => rfl
  | cons c cs ih =>
    rw [List.foldl_cons, ih, records_add]
    cases hc : c.record? with
    | none => simp [hc]
    | some r => simp [hc]

end MergeState

theorem records_mergeState (ps : List Partial) :
    (mergeState ps).records = Record.settleAll (Partial.statements ps) := by
  rw [mergeState, MergeState.records_foldl_add, Partial.filterMap_record?_contributions]
  rfl

end ApiRules
