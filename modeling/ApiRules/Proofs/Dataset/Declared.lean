import ApiRules.Proofs.Dataset.Loading

/-!
The declarations of a loaded dataset: those of its table, resolved with the constants of the table.
-/
namespace ApiRules

/-- The table has a declaration about this argument of the method. -/
def Table.Declares (t : Table) (method : Signature) (argument : UInt32) (e : Table.Typedef) : Prop :=
  e ∈ t.typedefs ∧ Signature.parse e.method = .ok method ∧ e.argument = argument

namespace Table.Typedef

theorem target_eq_ok {e : Typedef} {method : Signature} :
    e.target = .ok method ↔ Signature.parse e.method = .ok method ∧ method.isMethod = true := by
  rw [target]
  cases Signature.parse e.method with
  | error err => simp
  | ok m =>
    by_cases hm : m.isMethod = true
    · simp only [if_pos hm, Except.ok.injEq]
      exact ⟨fun h => ⟨h, h ▸ hm⟩, And.left⟩
    · simp only [if_neg hm, reduceCtorEq, Except.ok.injEq, false_iff, not_and]
      exact fun h => h ▸ hm

theorem declared?_eq_some {constants : List Constant} {e : Typedef} {x : Signature × ApiRules.Typedef} :
    e.declared? constants = some x ↔
      (Signature.parse e.method = .ok x.1 ∧ x.1.isMethod = true) ∧ x.2 = e.resolve constants := by
  obtain ⟨method, u⟩ := x
  rw [declared?, ← target_eq_ok]
  cases e.target with
  | error err => simp [Except.toOption]
  | ok m => simp [Except.toOption, eq_comm]

end Table.Typedef

namespace Dataset

variable {t : Table} {digest : Option Digest} {d : Dataset}

theorem typedef?_eq_some (h : ofTable t digest = .ok d) {method : Signature} {argument : UInt32}
    {u : Typedef} : d.typedef? method argument = some u ↔
      ∃ e, t.Declares method argument e ∧ u = e.resolve t.constants := by
  obtain ⟨rs, declared, -, -, hdec, hslots, rfl⟩ := ofTable_eq_ok.1 h
  have hkey : (fun x : Signature × Typedef => decide (x.1 = method ∧ x.2.argument = argument)) =
      fun x => decide (slot x = (method, argument)) := by
    funext x
    simp [slot]
  have hfind : ∀ x, ((declared.find? fun x => x.1 = method ∧ x.2.argument = argument) = some x ↔
      x ∈ declared ∧ slot x = (method, argument)) := by
    intro x
    rw [hkey]
    exact Sequences.find?_key_eq_some hslots
  simp only [typedef?, made, Option.map_eq_some_iff, hfind, Sequences.mem_of_mapM hdec,
    Table.Typedef.declared?_eq_some]
  constructor
  · rintro ⟨⟨m, u⟩, ⟨⟨e, he, ⟨hp, -⟩, rfl⟩, hs⟩, rfl⟩
    obtain ⟨rfl, rfl⟩ := Prod.mk.inj hs
    exact ⟨e, ⟨he, hp, rfl⟩, rfl⟩
  · rintro ⟨e, ⟨he, hp, rfl⟩, rfl⟩
    obtain ⟨x, hx⟩ := Sequences.exists_of_mapM hdec he
    obtain ⟨⟨hp', hm⟩, -⟩ := Table.Typedef.declared?_eq_some.1 hx
    obtain rfl := Except.ok.inj (hp.symm.trans hp')
    exact ⟨(x.1, e.resolve t.constants), ⟨⟨e, he, ⟨hp, hm⟩, rfl⟩, rfl⟩, rfl⟩

/-- A table of one declaration loads. -/
theorem ofTable_declaration (digest : Option Digest) {e : Table.Typedef} {method : Signature}
    (hp : Signature.parse e.method = .ok method) (hm : method.isMethod = true)
    (constants : List Table.Constant) :
    ofTable ⟨[], [e], constants⟩ digest = .ok (made digest [] [(method, e.resolve constants)]) := by
  have hdeclared : e.declared? constants = some (method, e.resolve constants) :=
    Table.Typedef.declared?_eq_some.2 ⟨⟨hp, hm⟩, rfl⟩
  apply ofTable_eq_ok.2
  exact ⟨[], [_], rfl, List.nodup_nil, by simp [hdeclared], by simp, rfl⟩

end Dataset

theorem Table.Declares.isMethod {t : Table} {digest : Option Digest} {d : Dataset}
    (h : Dataset.ofTable t digest = .ok d) {m : Signature} {argument : UInt32} {e : Table.Typedef}
    (he : t.Declares m argument e) : m.isMethod = true := by
  obtain ⟨_, declared, -, -, hdec, -, -⟩ := Dataset.ofTable_eq_ok.1 h
  obtain ⟨x, hx⟩ := Sequences.exists_of_mapM hdec he.1
  obtain ⟨⟨hp, hm⟩, -⟩ := Table.Typedef.declared?_eq_some.1 hx
  rwa [Except.ok.inj (he.2.1.symm.trans hp)]

end ApiRules
