import ApiRules.Merge.Basic
import ApiRules.Proofs.Merge.Contributions
import ApiRules.Proofs.Sequences
import ApiRules.Proofs.Signature.Canonical

/-!
The declarations that a merge keeps. Each is about a method and names it by its canonical spelling, and no
two are about one argument of a method.
-/
namespace ApiRules

namespace Declaration

/-- What no two declarations of a merged table share. -/
def key (d : Declaration) : Signature × UInt32 := (d.method, d.typedef.argument)

/-- The declaration is about a method, and spells it canonically. -/
structure Canonical (d : Declaration) : Prop where
  isMethod : d.method.isMethod = true
  method_eq : d.typedef.method = d.method.text

theorem Canonical.parse_method {d : Declaration} (h : d.Canonical) :
    Signature.parse d.typedef.method = .ok d.method := by
  rw [h.method_eq, Signature.parse_text]

theorem canonical_of_declaration? {c : Contribution} {d : Declaration} (h : c.declaration? = some d) :
    d.Canonical := by
  unfold Contribution.declaration? at h
  split at h
  · split at h
    · rename_i method _
      by_cases hm : method.isMethod = true
      · rw [if_pos hm] at h
        obtain rfl := Option.some.inj h
        exact ⟨hm, rfl⟩
      · rw [if_neg hm] at h
        cases h
    · cases h
  · cases h

theorem rivals_iff {d e : Declaration} : d.rivals e = true ↔ d.key = e.key := by
  simp [rivals, key]

/-- The declarations that are kept after one more. -/
def settle (d : Declaration) (kept : List Declaration) : List Declaration :=
  if kept.any d.rivals then kept else kept ++ [d]

theorem mem_settle {d e : Declaration} {kept : List Declaration} (h : e ∈ d.settle kept) :
    e = d ∨ e ∈ kept := by
  unfold settle at h
  split at h
  · exact .inr h
  · simpa [or_comm] using h

theorem nodup_map_key_settle {kept : List Declaration} (h : (kept.map key).Nodup) (d : Declaration) :
    ((d.settle kept).map key).Nodup := by
  rw [settle]
  by_cases hany : kept.any d.rivals = true
  · rwa [if_pos hany]
  · rw [if_neg hany]
    refine Sequences.nodup_map_concat.2 ⟨h, fun hm => hany ?_⟩
    obtain ⟨e, he, hk⟩ := List.mem_map.1 hm
    exact List.any_eq_true.2 ⟨e, he, rivals_iff.2 hk.symm⟩

/-- One more declaration changes what is kept about its own argument, and nothing if there is one. -/
theorem find?_settle (d : Declaration) (kept : List Declaration) (k : Signature × UInt32) :
    (d.settle kept).find? (fun e => e.key = k) =
      if d.key = k then some ((kept.find? fun e => e.key = k).getD d) else kept.find? fun e => e.key = k := by
  rw [settle]
  by_cases hany : kept.any d.rivals = true
  · rw [if_pos hany]
    split
    · rename_i hk
      obtain ⟨e, he, hr⟩ := List.any_eq_true.1 hany
      cases hf : kept.find? fun e => e.key = k with
      | none =>
        have hne := List.find?_eq_none.1 hf e he
        exact absurd ((rivals_iff.1 hr).symm.trans hk) (by simpa using hne)
      | some e' => rfl
    · rfl
  · have hnone : ∀ e ∈ kept, d.key ≠ e.key := fun e he hk =>
      hany (List.any_eq_true.2 ⟨e, he, rivals_iff.2 hk⟩)
    rw [if_neg hany, List.find?_append]
    by_cases hk : d.key = k
    · have hf : (kept.find? fun e => e.key = k) = none := by
        apply List.find?_eq_none.2
        intro e he
        simpa [hk] using (hnone e he).symm
      simp [hf, hk]
    · simp [hk]

/-- The declarations kept of a sequence. -/
def settleAll (ds : List Declaration) : List Declaration := ds.foldl (fun kept d => d.settle kept) []

theorem settleAll_concat (ds : List Declaration) (d : Declaration) :
    settleAll (ds ++ [d]) = d.settle (settleAll ds) := by
  rw [settleAll, List.foldl_append]
  rfl

theorem mem_of_mem_settleAll {ds : List Declaration} {e : Declaration} (h : e ∈ settleAll ds) : e ∈ ds := by
  induction ds using List.reverseRecOn with
  | nil => exact h
  | append_singleton ds d ih =>
    rw [settleAll_concat] at h
    obtain rfl | h := mem_settle h
    · exact List.mem_append_right ds List.mem_cons_self
    · exact List.mem_append_left [d] (ih h)

theorem nodup_map_key_settleAll (ds : List Declaration) : ((settleAll ds).map key).Nodup := by
  induction ds using List.reverseRecOn with
  | nil => exact List.nodup_nil
  | append_singleton ds d ih =>
    rw [settleAll_concat]
    exact nodup_map_key_settle ih d

end Declaration

namespace MergeState

theorem declarations_addRecord (m : MergeState) (r : Record) :
    (m.addRecord r).declarations = m.declarations := by
  obtain ⟨es, -, hadd⟩ := exists_addRecord r (m.records.find? r.rivals)
  rw [hadd m rfl]

theorem declarations_addConstant (m : MergeState) (source : Source) (name value : String) :
    (m.addConstant source name value).declarations = m.declarations := by
  rw [addConstant]
  split
  · rfl
  · split <;> rfl

theorem declarations_addDeclaration (m : MergeState) (d : Declaration) :
    (m.addDeclaration d).declarations = d.settle m.declarations := by
  unfold addDeclaration Declaration.settle
  split
  · rename_i hnone
    have hany : ¬m.declarations.any d.rivals = true := by simpa using hnone
    rw [if_neg hany]
  · rename_i kept hsome
    have hany : m.declarations.any d.rivals = true :=
      List.any_eq_true.2 ⟨kept, List.mem_of_find?_eq_some hsome, List.find?_some hsome⟩
    rw [if_pos hany]
    split <;> rfl

theorem declarations_add (m : MergeState) (c : Contribution) :
    (m.add c).declarations = (c.declaration?.map fun d => d.settle m.declarations).getD m.declarations := by
  cases c.treated with
  | record r _ hdeclaration _ _ hadd =>
    rw [hadd, hdeclaration]
    exact declarations_addRecord m r
  | declaration d _ hdeclaration _ _ hadd =>
    rw [hadd, hdeclaration]
    exact declarations_addDeclaration m d
  | literal source name value h =>
    rw [h]
    exact declarations_addConstant m source name value
  | skipped e _ hdeclaration _ _ _ hadd =>
    rw [hadd, hdeclaration]
    rfl

theorem declarations_foldl_add (cs : List Contribution) (m : MergeState) :
    (cs.foldl add m).declarations =
      (cs.filterMap Contribution.declaration?).foldl (fun kept d => d.settle kept) m.declarations := by
  induction cs generalizing m with
  | nil => rfl
  | cons c cs ih =>
    rw [List.foldl_cons, ih, declarations_add]
    cases hc : c.declaration? with
    | none => simp [hc]
    | some d => simp [hc]

end MergeState

theorem declarations_mergeState (ps : List Partial) :
    (mergeState ps).declarations = Declaration.settleAll
      (((Partial.byPriority ps).flatMap Partial.contributions).filterMap Contribution.declaration?) :=
  MergeState.declarations_foldl_add _ .empty

theorem canonical_of_mem_declarations {ps : List Partial} {d : Declaration}
    (h : d ∈ (mergeState ps).declarations) : d.Canonical := by
  rw [declarations_mergeState] at h
  obtain ⟨c, -, hc⟩ := List.mem_filterMap.1 (Declaration.mem_of_mem_settleAll h)
  exact Declaration.canonical_of_declaration? hc

theorem nodup_map_key_declarations (ps : List Partial) :
    ((mergeState ps).declarations.map Declaration.key).Nodup := by
  rw [declarations_mergeState]
  exact Declaration.nodup_map_key_settleAll _

/-- The merged table has the declarations that are kept, in some order. -/
theorem exists_perm_typedefs_merge (ps : List Partial) :
    ∃ sorted : List Declaration, sorted.Perm (mergeState ps).declarations ∧
      (merge ps).table.typedefs = sorted.map Declaration.typedef :=
  ⟨_, List.mergeSort_perm _ _, rfl⟩

end ApiRules
