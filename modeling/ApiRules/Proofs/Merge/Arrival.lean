import ApiRules.Proofs.Merge.Policy
import ApiRules.Proofs.Merge.Steps
import ApiRules.Proofs.Table.Arrangement

/-!
The order in which partial datasets arrive. It matters between those of one source that contribute to one key.
The merge of any other reordering has the same table and the same report.
-/
namespace ApiRules

namespace Partial

/-- The second sequence has the partial datasets of the first in another order. Two of one source that
contribute to one key stand in the order in which they stood. -/
def Rearranges (ps qs : List Partial) : Prop :=
  ∃ σ : Fin qs.length ≃ Fin ps.length, (∀ i, qs.get i = ps.get (σ i)) ∧
    ∀ i j, i < j → (qs.get i).source = (qs.get j).source →
      (∃ k, (qs.get i).ContributesTo k ∧ (qs.get j).ContributesTo k) → σ i < σ j

/-- What a merge takes up, in its order. -/
def allContributions (ps : List Partial) : List Contribution := (byPriority ps).flatMap contributions

variable {ps qs : List Partial}

theorem Rearranges.perm (h : Rearranges ps qs) : qs.Perm ps := by
  obtain ⟨σ, hσ, -⟩ := h
  exact Sequences.perm_of_positions hσ

theorem Rearranges.allContributions_perm (h : Rearranges ps qs) :
    (allContributions qs).Perm (allContributions ps) := by
  have hsorted : (byPriority qs).Perm (byPriority ps) :=
    (List.mergeSort_perm qs _).trans (h.perm.trans (List.mergeSort_perm ps _).symm)
  exact hsorted.flatMap_right _

/-- The contributions to a key are made by the partial datasets that contribute to it, source after source. -/
theorem filter_key?_allContributions (ps : List Partial) (k : MergeKey) :
    ((allContributions ps).filter fun c => c.key? = some k) =
      Source.all.flatMap fun s => (ps.filter fun p => p.source = s ∧ p.ContributesTo k).flatMap fun p =>
        p.contributions.filter fun c => c.key? = some k := by
  have hnil : ∀ p : Partial, decide (p.ContributesTo k) = false →
      (p.contributions.filter fun c => c.key? = some k) = [] := by
    intro p hp
    have hnone := mt contributesTo_iff.2 (of_decide_eq_false hp)
    apply List.filter_eq_nil_iff.2
    intro c hc hk
    exact hnone ⟨c, hc, of_decide_eq_true hk⟩
  rw [allContributions, byPriority_eq, List.filter_flatMap, List.flatMap_assoc]
  apply List.flatMap_congr
  intro s _
  rw [← Sequences.flatMap_filter_of_eq_nil hnil, List.filter_filter]
  simp only [Bool.decide_and, Bool.and_comm]

theorem Rearranges.filter_key?_eq (h : Rearranges ps qs) (k : MergeKey) :
    ((allContributions qs).filter fun c => c.key? = some k) =
      (allContributions ps).filter fun c => c.key? = some k := by
  obtain ⟨σ, hσ, horder⟩ := h
  rw [filter_key?_allContributions, filter_key?_allContributions]
  apply List.flatMap_congr
  intro s _
  have hown : (qs.filter fun p => p.source = s ∧ p.ContributesTo k) =
      ps.filter fun p => p.source = s ∧ p.ContributesTo k := by
    apply Sequences.filter_eq_of_positions hσ
    intro i j hij hi hj
    obtain ⟨hsi, hki⟩ := of_decide_eq_true hi
    obtain ⟨hsj, hkj⟩ := of_decide_eq_true hj
    exact horder i j hij (hsi.trans hsj.symm) ⟨k, hki, hkj⟩
  rw [hown]

end Partial

theorem same_mergeState {ps qs : List Partial} (h : Partial.Rearranges ps qs) :
    MergeState.Same (mergeState qs) (mergeState ps) :=
  MergeState.same_foldl_add h.allContributions_perm h.filter_key?_eq .empty

section Kept

variable {ps qs : List Partial}

theorem records_perm_of_kept (h : ∀ k, (mergeState qs).kept k = (mergeState ps).kept k) :
    (mergeState qs).records.Perm (mergeState ps).records :=
  Sequences.perm_of_find?_key (nodup_map_key_mergeState qs) (nodup_map_key_mergeState ps)
    fun k => MergeState.find?_record_eq (h (.rule k.1 k.2))

theorem declarations_perm_of_kept (h : ∀ k, (mergeState qs).kept k = (mergeState ps).kept k) :
    (mergeState qs).declarations.Perm (mergeState ps).declarations :=
  Sequences.perm_of_find?_key (nodup_map_key_declarations qs) (nodup_map_key_declarations ps)
    fun k => MergeState.find?_declaration_eq (h (.argument k.1 k.2))

theorem constants_eq_of_kept (h : ∀ k, (mergeState qs).kept k = (mergeState ps).kept k) :
    (mergeState qs).constants = (mergeState ps).constants :=
  Dictionary.eq_of_get? fun name => MergeState.get?_constant_eq (h (.constant name))

/-- Merges that keep the same list it in one order. -/
theorem table_eq_of_kept (h : ∀ k, (mergeState qs).kept k = (mergeState ps).kept k) :
    (mergeState qs).table = (mergeState ps).table := by
  rw [MergeState.table, MergeState.table,
    Table.groupsOf_eq_of_perm (records_perm_of_kept h) (nodup_map_key_mergeState qs),
    Table.typedefsOf_eq_of_perm (declarations_perm_of_kept h) (nodup_map_key_declarations qs),
    constants_eq_of_kept h]

theorem report_eq_of_same (h : MergeState.Same (mergeState qs) (mergeState ps)) (inputs : Nat) :
    (mergeState qs).report inputs = (mergeState ps).report inputs := by
  have hcount : ∀ s : Source, (mergeState qs).records.countP (fun r => r.source = s) =
      (mergeState ps).records.countP fun r => r.source = s := fun s => (records_perm_of_kept h.kept).countP_eq _
  simp only [MergeState.report, hcount, h.counts, (declarations_perm_of_kept h.kept).length_eq,
    constants_eq_of_kept h.kept]

end Kept

/-- A merge has the same table and the same report, and reports the same events in some order, as long as the
partial datasets of one source that contribute to one key arrive in one order. It is the same altogether if
those of each source do. -/
theorem merge_of_rearranged (ps qs : List Partial) :
    (Partial.Rearranges ps qs → (merge qs).table = (merge ps).table ∧
      (merge qs).report = (merge ps).report ∧ (merge qs).events.Perm (merge ps).events) ∧
    ((∀ s : Source, (qs.filter fun p => p.source = s) = ps.filter fun p => p.source = s) →
      merge qs = merge ps) := by
  constructor
  · intro h
    have hsame := same_mergeState h
    refine ⟨table_eq_of_kept hsame.kept, ?_, hsame.events⟩
    rw [merge, h.perm.length_eq]
    exact report_eq_of_same hsame ps.length
  · intro h
    have hsorted : Partial.byPriority qs = Partial.byPriority ps := by
      rw [Partial.byPriority_eq, Partial.byPriority_eq]
      exact List.flatMap_congr fun s _ => h s
    have hlen : qs.length = ps.length := by
      rw [← List.length_mergeSort qs, ← List.length_mergeSort ps]
      exact congrArg List.length hsorted
    rw [merge, merge, mergeState, mergeState, hsorted, hlen]

/-- Two partial datasets of one source compete and keep their order; one of the same source that contributes
to other keys, and one of another source, come before them. -/
theorem merge_of_rearranged_sources :
    let first : Partial := ⟨.sdkLint, none, [⟨"p.A", .deprecated (some "B"), none⟩], [], .empty⟩
    let central : Partial := ⟨.mavenCentral, some "lib", [⟨"p.A", .deprecated none, none⟩], [],
      .ofList [("K.ONE", "2")]⟩
    let other : Partial := ⟨.sdkLint, none, [⟨"p.A", .removed none, none⟩],
      [⟨"p.A#m(int)", 0, .int, false, ["K.ONE"], none⟩], .ofList [("K.ONE", "1")]⟩
    let later : Partial := ⟨.sdkLint, none, [⟨"p/A", .deprecated (some "C"), none⟩], [], .empty⟩
    Partial.Rearranges [first, central, other, later] [central, other, first, later] ∧
      (merge [central, other, first, later]).table = (merge [first, central, other, later]).table ∧
      (merge [central, other, first, later]).report = (merge [first, central, other, later]).report ∧
      merge [first, other, later, central] = merge [first, central, other, later] := by
  intro first central other later
  have hdisjoint : ∀ k, other.ContributesTo k → ¬first.ContributesTo k := by
    intro k
    cases k with
    | rule pattern kind =>
      rintro ⟨r, hr, -, rfl⟩ ⟨q, hq, -, hkind⟩
      rw [List.mem_singleton.1 hr, List.mem_singleton.1 hq] at hkind
      cases hkind
    | argument method index =>
      rintro - ⟨-, t, ht, -⟩
      cases ht
    | constant name =>
      rintro - ⟨value, he⟩
      cases he
  have hleft : ∀ i : Fin 4, [2, 0, 1, 3].get ([1, 2, 0, 3].get i) = i := by decide
  have hright : ∀ i : Fin 4, [1, 2, 0, 3].get ([2, 0, 1, 3].get i) = i := by decide
  let σ : Fin 4 ≃ Fin 4 := ⟨[1, 2, 0, 3].get, [2, 0, 1, 3].get, hleft, hright⟩
  have horder : ∀ i j : Fin 4, i < j → ([1, 2, 0, 3] : List (Fin 4)).get i < [1, 2, 0, 3].get j ∨
      i = 0 ∨ (i = 1 ∧ j = 2) := by decide
  have h : Partial.Rearranges [first, central, other, later] [central, other, first, later] := by
    refine ⟨σ, ?_, ?_⟩
    · intro i
      match i with
      | 0 | 1 | 2 | 3 => rfl
    · intro i j hij hs ⟨k, hk, hk'⟩
      obtain hlt | rfl | ⟨rfl, rfl⟩ := horder i j hij
      · exact hlt
      · match j with
        | 1 | 2 | 3 => cases hs
      · exact absurd hk' (hdisjoint k hk)
  obtain ⟨ht, hr, -⟩ := (merge_of_rearranged _ _).1 h
  refine ⟨h, ht, hr, (merge_of_rearranged _ _).2 ?_⟩
  intro s
  cases s <;> rfl

end ApiRules
