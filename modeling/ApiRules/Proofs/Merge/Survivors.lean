import ApiRules.Proofs.Merge.Accounting

/-!
The declarations and the constants that survive a merge. Of the declarations for an argument the first one by
precedence is left, as it is, and so is the first literal of a constant.
-/
namespace ApiRules

namespace Partial

/-- Source after source, and those of one source as they arrived. -/
def byPrecedence (ps : List Partial) : List Partial :=
  Source.all.flatMap fun s => ps.filter fun p => p.source = s

/-- The declaration that a raw one makes, if its method can be read and is one. -/
def declared? (p : Partial) (t : Partial.Typedef) : Option Declaration :=
  match Signature.parse t.method with
  | .ok method =>
    if method.isMethod then
      some ⟨method, ⟨method.text, t.argument, t.kind, t.flag, t.constants, p.source, t.artifact <|> p.artifact⟩⟩
    else none
  | .error _ => none

/-- What partial datasets declare about methods that can be read, by precedence. -/
def declarations (ps : List Partial) : List Declaration :=
  (byPrecedence ps).flatMap fun p => p.typedefs.filterMap p.declared?

theorem mem_byPrecedence {ps : List Partial} {p : Partial} : p ∈ byPrecedence ps ↔ p ∈ ps := by
  simp [byPrecedence, Source.mem_all]

theorem declared?_eq_some {p : Partial} {t : Partial.Typedef} {d : Declaration} :
    p.declared? t = some d ↔ Signature.parse t.method = .ok d.method ∧ d.method.isMethod = true ∧
      d.typedef = ⟨d.method.text, t.argument, t.kind, t.flag, t.constants, p.source, t.artifact <|> p.artifact⟩ := by
  obtain ⟨method, typedef⟩ := d
  rw [declared?]
  cases hp : Signature.parse t.method with
  | error e => simp
  | ok m =>
    by_cases hm : m.isMethod = true
    · simp only [hm, if_true, Option.some.injEq, Declaration.mk.injEq, Except.ok.injEq]
      constructor
      · rintro ⟨rfl, rfl⟩
        exact ⟨rfl, hm, rfl⟩
      · rintro ⟨rfl, -, rfl⟩
        exact ⟨rfl, rfl⟩
    · simp only [hm, Bool.false_eq_true, if_false, reduceCtorEq, Except.ok.injEq, false_iff]
      rintro ⟨rfl, hm', -⟩
      exact hm hm'

theorem exists_key_declaration_iff {ps : List Partial} {method : Signature} {argument : UInt32} :
    (∃ d ∈ declarations ps, d.key = (method, argument)) ↔ method.isMethod = true ∧
      ∃ p ∈ ps, ∃ t ∈ p.typedefs, Signature.parse t.method = .ok method ∧ t.argument = argument := by
  simp only [declarations, List.mem_flatMap, mem_byPrecedence, List.mem_filterMap]
  constructor
  · rintro ⟨d, ⟨p, hp, t, ht, hd⟩, hk⟩
    obtain ⟨rfl, rfl⟩ := Prod.mk.inj hk
    obtain ⟨hparse, hm, htypedef⟩ := declared?_eq_some.1 hd
    exact ⟨hm, p, hp, t, ht, hparse, by rw [htypedef]⟩
  · rintro ⟨hm, p, hp, t, ht, hparse, rfl⟩
    obtain ⟨d, hd⟩ : ∃ d, p.declared? t = some d := by
      rw [declared?, hparse]
      exact ⟨_, if_pos hm⟩
    obtain ⟨hmethod, -, htypedef⟩ := declared?_eq_some.1 hd
    have hk : d.key = (d.method, t.argument) := by rw [Declaration.key, htypedef]
    rw [← Except.ok.inj (hmethod.symm.trans hparse)]
    exact ⟨d, ⟨p, hp, t, ht, hd⟩, hk⟩

/-- The declarations that the merge takes up, in its order, are those by precedence. -/
theorem filterMap_declaration?_contributions (ps : List Partial) :
    ((byPriority ps).flatMap contributions).filterMap Contribution.declaration? = declarations ps := by
  have own : ∀ p : Partial, p.contributions.filterMap Contribution.declaration? =
      p.typedefs.filterMap p.declared? := by
    intro p
    -- records and constants declare nothing
    have hnone : ∀ {α : Type} (l : List α), (l.filterMap fun _ => (none : Option Declaration)) = [] :=
      fun l => List.filterMap_eq_nil_iff.2 fun _ _ => rfl
    simp only [filterMap_contributions, Contribution.declaration?, hnone, List.nil_append, List.append_nil]
    rfl
  rw [byPriority_eq, declarations, byPrecedence, List.filterMap_flatMap]
  exact List.flatMap_congr fun p _ => own p

end Partial

namespace Declaration

/-- Of the declarations for an argument the first one is kept. -/
theorem find?_settleAll (ds : List Declaration) (k : Signature × UInt32) :
    (settleAll ds).find? (fun e => e.key = k) = ds.find? fun e => e.key = k := by
  induction ds using List.reverseRecOn with
  | nil => rfl
  | append_singleton ds d ih =>
    rw [settleAll_concat, find?_settle, ih, List.find?_append]
    by_cases hk : d.key = k
    · cases ds.find? fun e => e.key = k <;> simp [hk]
    · simp [hk]

/-- The declaration says something else than the first one for its argument. -/
def contradicts (ds : List Declaration) (d : Declaration) : Bool :=
  (ds.find? fun e => e.key = d.key).any fun e => d.typedef.kind ≠ e.typedef.kind ∨
    d.typedef.flag ≠ e.typedef.flag ∨ d.typedef.constants ≠ e.typedef.constants

theorem contradicts_eq (ds : List Declaration) (d : Declaration) :
    contradicts ds d = (ds.find? fun e => e.key = d.key).any fun e => !d.agrees e := by
  rw [contradicts]
  congr 1
  funext e
  simp only [agrees, ← decide_not, not_and_or, ne_eq]

theorem contradicts_append {ds : List Declaration} {d : Declaration} (h : d ∈ ds) (es : List Declaration) :
    contradicts (ds ++ es) d = contradicts ds d := by
  have hsome : (ds.find? fun e => e.key = d.key).isSome = true := List.find?_isSome.2 ⟨d, h, decide_eq_true rfl⟩
  obtain ⟨e, he⟩ := Option.isSome_iff_exists.1 hsome
  rw [contradicts, contradicts, List.find?_append, he, Option.some_or]

/-- A declaration does not contradict itself. -/
theorem contradicts_concat (ds : List Declaration) (d : Declaration) :
    contradicts (ds ++ [d]) d = contradicts ds d := by
  rw [contradicts, contradicts, List.find?_append]
  cases ds.find? fun e => e.key = d.key <;> simp

theorem countP_contradicts_concat (ds : List Declaration) (d : Declaration) :
    (ds ++ [d]).countP (contradicts (ds ++ [d])) = ds.countP (contradicts ds) + (contradicts ds d).toNat := by
  have hds : ds.countP (contradicts (ds ++ [d])) = ds.countP (contradicts ds) :=
    List.countP_congr fun e he => by rw [contradicts_append he]
  rw [List.countP_append, hds, List.countP_singleton, contradicts_concat]
  cases contradicts ds d <;> rfl

end Declaration

namespace MergeState

theorem typedefConflicts_addRecord (m : MergeState) (r : Record) :
    (m.addRecord r).counts.typedefConflicts = m.counts.typedefConflicts := by
  obtain ⟨es, hes, hadd⟩ := exists_addRecord r (m.records.find? r.rivals)
  rw [hadd m rfl]
  exact hes.typedefConflicts m.counts

theorem typedefConflicts_addDeclaration (m : MergeState) (d : Declaration) :
    (m.addDeclaration d).counts.typedefConflicts =
      m.counts.typedefConflicts + (Declaration.contradicts m.declarations d).toNat := by
  have hfind := Declaration.find?_rivals d m.declarations
  rw [Declaration.contradicts_eq, Declaration.key, ← hfind, addDeclaration]
  cases m.declarations.find? d.rivals with
  | none => rfl
  | some kept => by_cases ha : d.agrees kept = true <;> simp [ha]

theorem typedefConflicts_add (m : MergeState) (c : Contribution) :
    (m.add c).counts.typedefConflicts = m.counts.typedefConflicts +
      (c.declaration?.any (Declaration.contradicts m.declarations)).toNat := by
  cases c.treated with
  | record r _ hdeclaration _ _ hadd =>
    rw [hadd, hdeclaration]
    exact typedefConflicts_addRecord m r
  | declaration d _ hdeclaration _ _ hadd =>
    rw [hadd, hdeclaration]
    exact typedefConflicts_addDeclaration m d
  | literal source name value h =>
    rw [h]
    exact congrArg MergeCounts.typedefConflicts (counts_addConstant m source name value)
  | skipped e _ hdeclaration _ _ _ hadd =>
    rw [hadd, hdeclaration]
    rfl

/-- The conflicts counted so far are the declarations taken up that contradict the first one for their argument. -/
theorem typedefConflicts_foldl_add (cs : List Contribution) :
    (cs.foldl add empty).counts.typedefConflicts =
      (cs.filterMap Contribution.declaration?).countP
        (Declaration.contradicts (cs.filterMap Contribution.declaration?)) := by
  induction cs using List.reverseRecOn with
  | nil => rfl
  | append_singleton cs c ih =>
    have hkept : (cs.foldl add empty).declarations =
        Declaration.settleAll (cs.filterMap Contribution.declaration?) := declarations_foldl_add cs empty
    rw [List.foldl_concat, typedefConflicts_add, ih, List.filterMap_append]
    cases hc : c.declaration? with
    | none => simp [hc]
    | some d =>
      have hsingle : [c].filterMap Contribution.declaration? = [d] := by simp [hc]
      have hsame : Declaration.contradicts (cs.foldl add empty).declarations d =
          Declaration.contradicts (cs.filterMap Contribution.declaration?) d := by
        rw [hkept, Declaration.contradicts, Declaration.find?_settleAll]
        rfl
      rw [hsingle, Declaration.countP_contradicts_concat, Option.any_some, hsame]

theorem get?_constants_add (m : MergeState) (c : Contribution) (name : String) :
    (m.add c).constants.get? name = (m.constants.get? name).or (c.literal? name) := by
  cases c.treated with
  | record r _ _ hliteral _ hadd => rw [hadd, hliteral, constants_addRecord, Option.or_none]
  | declaration d _ _ hliteral _ hadd => rw [hadd, hliteral, constants_addDeclaration, Option.or_none]
  | literal source other value h =>
    rw [h, add, get?_addConstant, Contribution.literal?]
    by_cases hn : name = other
    · rw [hn, if_pos rfl, if_pos rfl]
      cases m.constants.get? other <;> rfl
    · rw [if_neg hn, if_neg (Ne.symm hn), Option.or_none]
  | skipped e _ _ hliteral _ _ hadd =>
    rw [hadd, hliteral, Option.or_none]
    rfl

/-- What is kept of a constant is its first literal. -/
theorem get?_constants_foldl_add (cs : List Contribution) (m : MergeState) (name : String) :
    (cs.foldl add m).constants.get? name =
      (m.constants.get? name).or (cs.findSome? (Contribution.literal? name)) := by
  induction cs generalizing m with
  | nil => exact Option.or_none.symm
  | cons c cs ih =>
    rw [List.foldl_cons, ih, get?_constants_add, Option.or_assoc, List.findSome?_cons]
    cases c.literal? name <;> rfl

end MergeState

theorem Partial.head?_literals_contributions (p : Partial) (name : String) :
    (p.contributions.filterMap (Contribution.literal? name)).head? = p.constants.get? name := by
  -- records and declarations are no literals
  have hnone : ∀ {α : Type} (l : List α), (l.filterMap fun _ => (none : Option String)) = [] :=
    fun l => List.filterMap_eq_nil_iff.2 fun _ _ => rfl
  simp only [filterMap_contributions, Contribution.literal?, hnone, List.nil_append, List.head?_filterMap,
    Dictionary.get?, List.lookup_eq_findSome?, beq_iff_eq, eq_comm (a := name)]

/-- The literal that is left of a constant is the first one by precedence. -/
theorem get?_constants_mergeState (ps : List Partial) (name : String) :
    (mergeState ps).constants.get? name = (Partial.byPrecedence ps).findSome? fun p => p.constants.get? name := by
  have hempty : MergeState.empty.constants.get? name = none := rfl
  rw [mergeState, MergeState.get?_constants_foldl_add, hempty, Option.none_or, ← List.head?_filterMap,
    List.filterMap_flatMap, List.head?_flatMap, Partial.byPriority_eq]
  simp only [Partial.head?_literals_contributions]
  rfl

/-- The method and the argument that a declaration of a table is about. -/
def Table.Typedef.key? (t : Table.Typedef) : Option (Signature × UInt32) :=
  (Signature.parse t.method).toOption.map fun method => (method, t.argument)

theorem Declaration.Canonical.key? {d : Declaration} (h : d.Canonical) : d.typedef.key? = some d.key := by
  rw [Table.Typedef.key?, h.parse_method]
  rfl

/-- The declarations of the merged table with a key: the first one with it. -/
theorem filter_key?_typedefs_merge (ps : List Partial) (k : Signature × UInt32) :
    ((merge ps).table.typedefs.filter fun t => t.key? = some k) =
      (((Partial.declarations ps).find? fun d => d.key = k).map Declaration.typedef).toList := by
  obtain ⟨sorted, hp, ht⟩ := exists_perm_typedefs_merge ps
  have hkey : (sorted.filter fun d => d.typedef.key? = some k) = sorted.filter fun d => d.key = k := by
    apply List.filter_congr
    intro d hd
    rw [(canonical_of_mem_declarations (hp.mem_iff.1 hd)).key?, decide_eq_decide, Option.some_inj]
  have hmap : ((sorted.map Declaration.typedef).filter fun t => t.key? = some k) =
      (sorted.filter fun d => d.typedef.key? = some k).map Declaration.typedef := List.filter_map
  rw [ht, hmap, hkey, Sequences.filter_eq_of_perm hp (nodup_map_key_declarations ps),
    Sequences.filter_eq_toList_find? (nodup_map_key_declarations ps), declarations_mergeState,
    Declaration.find?_settleAll, Partial.filterMap_declaration?_contributions, Option.toList_map]

theorem filter_constants_merge (ps : List Partial) (name : String) :
    ((merge ps).table.constants.filter fun c => c.name = name) =
      (((Partial.byPrecedence ps).findSome? fun p => p.constants.get? name).map fun value =>
        (⟨name, value⟩ : Table.Constant)).toList := by
  have hc : (merge ps).table.constants =
      (mergeState ps).constants.entries.map fun e => (⟨e.1, e.2⟩ : Table.Constant) := rfl
  have hmap : (((mergeState ps).constants.entries.map fun e => (⟨e.1, e.2⟩ : Table.Constant)).filter fun c =>
        c.name = name) =
      ((mergeState ps).constants.entries.filter fun e => e.1 = name).map fun e => ⟨e.1, e.2⟩ := List.filter_map
  rw [hc, hmap, Dictionary.filter_entries, get?_constants_mergeState, ← Option.toList_map, Option.map_map]
  rfl

/-- A merged table has a declaration for an argument of a method if a raw one is about it, and a constant if some
partial dataset has it. It has one then, and this is the first by precedence, as it is: nothing of the later ones
is in it. The conflicts that are counted are the later declarations that name other constants or name them in
another way. -/
theorem merge_keeps_first_declaration_and_literal (ps : List Partial) :
    (∀ method argument,
      let kept := (merge ps).table.typedefs.filter fun t => t.key? = some (method, argument)
      (kept ≠ [] ↔ method.isMethod = true ∧
        ∃ p ∈ ps, ∃ t ∈ p.typedefs, Signature.parse t.method = .ok method ∧ t.argument = argument) ∧
      kept = (((Partial.declarations ps).find? fun d => d.key = (method, argument)).map
        Declaration.typedef).toList) ∧
    (∀ t ∈ (merge ps).table.typedefs, ∃ method, t.key? = some (method, t.argument) ∧ t.method = method.text) ∧
    (∀ name,
      let kept := (merge ps).table.constants.filter fun c => c.name = name
      (kept ≠ [] ↔ ∃ p ∈ ps, ∃ value, (name, value) ∈ p.constants.entries) ∧
      kept = (((Partial.byPrecedence ps).findSome? fun p => p.constants.get? name).map fun value =>
        ⟨name, value⟩).toList) ∧
    (merge ps).report.counts.typedefConflicts =
      (Partial.declarations ps).countP (Declaration.contradicts (Partial.declarations ps)) := by
  refine ⟨?_, ?_, ?_, ?_⟩
  · intro method argument kept
    have hkept : kept = _ := filter_key?_typedefs_merge ps (method, argument)
    refine ⟨?_, hkept⟩
    rw [hkept, Sequences.toList_map_ne_nil, List.find?_isSome, ← Partial.exists_key_declaration_iff]
    simp only [decide_eq_true_eq]
  · intro t ht
    obtain ⟨sorted, hp, htypedefs⟩ := exists_perm_typedefs_merge ps
    rw [htypedefs] at ht
    obtain ⟨d, hd, rfl⟩ := List.mem_map.1 ht
    have hc := canonical_of_mem_declarations (hp.mem_iff.1 hd)
    exact ⟨d.method, hc.key?, hc.method_eq⟩
  · intro name kept
    have hkept : kept = _ := filter_constants_merge ps name
    refine ⟨?_, hkept⟩
    rw [hkept, Sequences.toList_map_ne_nil, List.findSome?_isSome_iff]
    simp only [Partial.mem_byPrecedence, Option.isSome_iff_exists, Dictionary.get?_eq_some]
  · rw [← Partial.filterMap_declaration?_contributions]
    exact MergeState.typedefConflicts_foldl_add _

/-- What comes from a source of a lower priority is left out, though it arrived before. A declaration that is not
about a method takes no place. -/
example :
    let central : Partial := ⟨.mavenCentral, some "lib", [], [⟨"p.A#m(int)", 0, .int, false, ["K.ONE"], none⟩],
      .ofList [("K.ONE", "2")]⟩
    let lint : Partial := ⟨.sdkLint, none, [], [⟨"p.A#m", 0, .int, false, ["K.ONE"], none⟩,
      ⟨"p/A#m(int)", 0, .int, true, ["K.TWO"], none⟩], .ofList [("K.ONE", "1")]⟩
    let m := merge [central, lint]
    m.table.typedefs = [⟨"p.A#m(int)", 0, .int, true, ["K.TWO"], .sdkLint, none⟩] ∧
      m.table.constants = [⟨"K.ONE", "1"⟩] ∧ m.report.counts.typedefConflicts = 1 := by
  refine ⟨?_, ?_, ?_⟩ <;> cbv

end ApiRules
