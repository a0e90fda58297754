import ApiRules.Proofs.Merge.Declarations
import ApiRules.Proofs.Merge.Records

/-!
The keys that contributions compete for, and the keys that a partial dataset contributes to.
-/
namespace ApiRules

namespace Record

theorem mergeKey_eq {r : Record} {p : Pattern} {k : Kind} : r.mergeKey = .rule p k ↔ r.key = (p, k) := by
  simp [mergeKey, key]

theorem find?_rivals (r : Record) (rs : List Record) :
    rs.find? r.rivals = rs.find? fun q => q.key = (r.pattern, r.kind) := by
  congr
  funext q
  rw [Bool.eq_iff_iff, rivals_iff, decide_eq_true_eq]
  exact eq_comm

end Record

namespace Declaration

theorem mergeKey_eq {d : Declaration} {m : Signature} {i : UInt32} :
    d.mergeKey = .argument m i ↔ d.key = (m, i) := by
  simp [mergeKey, key]

theorem find?_rivals (d : Declaration) (ds : List Declaration) :
    ds.find? d.rivals = ds.find? fun e => e.key = (d.method, d.typedef.argument) := by
  congr
  funext e
  rw [Bool.eq_iff_iff, rivals_iff, decide_eq_true_eq]
  exact eq_comm

end Declaration

namespace Contribution

theorem key?_record {source : Source} {text : String} {payload : Payload} {artifact : Option String}
    {k : MergeKey} : (record source text payload artifact).key? = some k ↔
      ∃ p, Pattern.parse text = .ok p ∧ k = .rule p payload.kind := by
  simp only [key?, record?, declaration?]
  cases Pattern.parse text with
  | error e => simp
  | ok p => simp [Record.mergeKey, Record.kind, eq_comm]

theorem key?_typedef {t : Table.Typedef} {k : MergeKey} : (typedef t).key? = some k ↔
    ∃ method, Signature.parse t.method = .ok method ∧ method.isMethod = true ∧
      k = .argument method t.argument := by
  simp only [key?, record?, declaration?]
  cases Signature.parse t.method with
  | error e => simp
  | ok method =>
    by_cases hm : method.isMethod = true
    · simp only [if_pos hm, Option.map_none, Option.map_some, Option.none_or, Option.some.injEq]
      constructor
      · rintro rfl
        exact ⟨method, rfl, hm, rfl⟩
      · rintro ⟨_, hp, -, rfl⟩
        obtain rfl := Except.ok.inj hp
        rfl
    · simp only [if_neg hm, Option.map_none, Option.or_none, reduceCtorEq, false_iff]
      rintro ⟨_, hp, hm', -⟩
      obtain rfl := Except.ok.inj hp
      exact hm hm'

theorem key?_constant {source : Source} {name value : String} {k : MergeKey} :
    (constant source name value).key? = some k ↔ k = .constant name := by
  simp [key?, eq_comm]

end Contribution

namespace Partial

/-- The partial dataset has a rule, a declaration or a literal for the key. -/
def ContributesTo (p : Partial) : MergeKey → Prop
  | .rule pattern kind => ∃ r ∈ p.records, Pattern.parse r.pattern = .ok pattern ∧ r.payload.kind = kind
  | .argument method index => method.isMethod = true ∧
      ∃ t ∈ p.typedefs, Signature.parse t.method = .ok method ∧ t.argument = index
  | .constant name => ∃ value, (name, value) ∈ p.constants.entries

theorem contributesTo_iff {p : Partial} {k : MergeKey} :
    p.ContributesTo k ↔ ∃ c ∈ p.contributions, c.key? = some k := by
  simp only [contributions, List.mem_append, List.mem_map, or_and_right, exists_or,
    exists_exists_and_eq_and, Contribution.key?_record, Contribution.key?_typedef, Contribution.key?_constant]
  cases k with
  | rule pattern kind =>
    simp only [ContributesTo, MergeKey.rule.injEq, reduceCtorEq, and_false, exists_false, or_false]
    constructor
    · rintro ⟨r, hr, hp, rfl⟩
      exact ⟨r, hr, pattern, hp, rfl, rfl⟩
    · rintro ⟨r, hr, _, hp, rfl, rfl⟩
      exact ⟨r, hr, hp, rfl⟩
  | argument method index =>
    simp only [ContributesTo, MergeKey.argument.injEq, reduceCtorEq, and_false, exists_false, false_or, or_false]
    constructor
    · rintro ⟨hm, t, ht, hp, rfl⟩
      exact ⟨t, ht, method, hp, hm, rfl, rfl⟩
    · rintro ⟨t, ht, _, hp, hm, rfl, rfl⟩
      exact ⟨hm, t, ht, hp, rfl⟩
  | constant name =>
    simp only [ContributesTo, MergeKey.constant.injEq, reduceCtorEq, and_false, exists_false, false_or]
    constructor
    · rintro ⟨value, he⟩
      exact ⟨(name, value), he, rfl⟩
    · rintro ⟨e, he, rfl⟩
      exact ⟨e.2, he⟩

instance (p : Partial) (k : MergeKey) : Decidable (p.ContributesTo k) :=
  decidable_of_iff _ contributesTo_iff.symm

end Partial

end ApiRules
