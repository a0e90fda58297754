import ApiRules.Proofs.Merge.Arrival
import ApiRules.Proofs.Merge.Survivors
import Mathlib.Data.List.Permutation

/-!
Partial datasets that are added once more. A merge keeps what it would keep without them, wherever the order of
precedence puts them.
-/
namespace ApiRules

namespace Partial

variable {ps qs : List Partial}

/-- By precedence a repeated partial dataset stands behind the one that it repeats. -/
theorem findSome?_byPrecedence_append {β : Type} (h : ∀ q ∈ qs, q ∈ ps) (f : Partial → Option β) :
    (byPrecedence (ps ++ qs)).findSome? f = (byPrecedence ps).findSome? f := by
  have hown : ∀ s : Source, ((ps ++ qs).filter fun p => p.source = s).findSome? f =
      (ps.filter fun p => p.source = s).findSome? f := by
    intro s
    rw [List.filter_append]
    apply Sequences.findSome?_append_of_subset
    intro q hq
    obtain ⟨hq, hs⟩ := List.mem_filter.1 hq
    exact List.mem_filter.2 ⟨h q hq, hs⟩
  rw [byPrecedence, byPrecedence, Sequences.findSome?_flatMap, Sequences.findSome?_flatMap]
  simp only [hown]

theorem statements_eq (ps : List Partial) :
    statements ps = (byPrecedence ps).flatMap fun p => p.records.filterMap p.stated? := by
  rw [statements, byPrecedence, List.flatMap_assoc]

theorem find?_statements_append (h : ∀ q ∈ qs, q ∈ ps) (p : ApiRules.Record → Bool) :
    (statements (ps ++ qs)).find? p = (statements ps).find? p := by
  rw [statements_eq, statements_eq, List.find?_flatMap, List.find?_flatMap, findSome?_byPrecedence_append h]

theorem mem_statements_append (h : ∀ q ∈ qs, q ∈ ps) {r : ApiRules.Record} :
    r ∈ statements (ps ++ qs) ↔ r ∈ statements ps := by
  have hmem : ∀ p, p ∈ ps ++ qs ↔ p ∈ ps := by
    intro p
    rw [List.mem_append]
    exact or_iff_left_of_imp (h p)
  simp only [mem_statements, hmem]

theorem find?_declarations_append (h : ∀ q ∈ qs, q ∈ ps) (p : Declaration → Bool) :
    (declarations (ps ++ qs)).find? p = (declarations ps).find? p := by
  rw [declarations, declarations, List.find?_flatMap, List.find?_flatMap, findSome?_byPrecedence_append h]

end Partial

namespace Record

theorem binding_congr {stated stated' : List Record} (h : ∀ r, r ∈ stated ↔ r ∈ stated') (k : Kind) :
    binding k stated = binding k stated' := by
  have hall : ∀ p : Record → Bool, stated.all p = stated'.all p := by
    intro p
    rw [Bool.eq_iff_iff, List.all_eq_true, List.all_eq_true]
    exact forall_congr' fun r => by rw [h r]
  funext r
  cases k <;> first | exact hall _ | rfl

/-- The foremost record depends on which records there are and which of them are found first. -/
theorem foremost?_congr {rs rs' : List Record} (hm : ∀ r, r ∈ rs ↔ r ∈ rs')
    (hf : ∀ p, rs.find? p = rs'.find? p) (p : Pattern) (k : Kind) : foremost? rs p k = foremost? rs' p k := by
  have hstated : ∀ r, r ∈ rs.filter (fun r => r.key = (p, k)) ↔ r ∈ rs'.filter fun r => r.key = (p, k) := by
    intro r
    rw [List.mem_filter, List.mem_filter, hm]
  simp only [foremost?, List.find?_filter, hf, binding_congr hstated]

end Record

theorem kept_mergeState_append {ps qs : List Partial} (h : ∀ q ∈ qs, q ∈ ps) (k : MergeKey) :
    (mergeState (ps ++ qs)).kept k = (mergeState ps).kept k := by
  cases k with
  | rule p kind =>
    have hforemost := Record.foremost?_congr (fun r => Partial.mem_statements_append h (r := r))
      (Partial.find?_statements_append h) p kind
    simp only [MergeState.kept, records_mergeState, Record.find?_settleAll_eq_foremost?, hforemost]
  | argument method index =>
    simp only [MergeState.kept, declarations_mergeState, Declaration.find?_settleAll,
      Partial.filterMap_declaration?_contributions, Partial.find?_declarations_append h]
  | constant name =>
    simp only [MergeState.kept, get?_constants_mergeState, Partial.findSome?_byPrecedence_append h]

/-- Partial datasets that are there already add nothing to the table. -/
theorem merge_of_repeated (ps qs : List Partial) (h : ∀ q ∈ qs, q ∈ ps) :
    (merge (ps ++ qs)).table = (merge ps).table :=
  table_eq_of_kept (kept_mergeState_append h)

/-- A repeated statement of the highest priority meets the tighter one of another source, and a repeated one of
that source its own: the bound of the first source that states it is left. -/
theorem merge_of_repeated_bounds :
    let central : Partial := ⟨.mavenCentral, some "lib", [⟨"p.A", .minApiLevel 21, none⟩],
      [⟨"p.A#m(int)", 0, .int, false, ["K.ONE"], none⟩], .empty⟩
    let google : Partial := ⟨.googleMaven, none, [⟨"p/A", .minApiLevel 21, some "core"⟩], [], .empty⟩
    let lint : Partial :=
      ⟨.sdkLint, none, [⟨"p.A", .minApiLevel 14, none⟩, ⟨"p.A", .deprecated none, none⟩], [], .empty⟩
    let ps := [central, google, lint]
    let qs := [central, lint, google, lint]
    (∀ q ∈ qs, q ∈ ps) ∧ (merge (ps ++ qs)).table = (merge ps).table ∧
      (merge ps).table.groups = [⟨.sdkLint, [⟨"p.A", [⟨.deprecated none, none⟩]⟩]⟩,
        ⟨.googleMaven, [⟨"p.A", [⟨.minApiLevel 21, some "core"⟩]⟩]⟩] := by
  intro central google lint ps qs
  have h : ∀ q ∈ qs, q ∈ ps := by simp [ps, qs]
  refine ⟨h, merge_of_repeated ps qs h, ?_⟩
  cbv

end ApiRules
