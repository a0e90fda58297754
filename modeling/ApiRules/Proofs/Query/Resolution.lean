import ApiRules.Proofs.Dataset.Declared
import ApiRules.Proofs.Query.Replacement

/-!
What stands for an argument of a call. The first method that the table has a declaration for decides, with
this declaration and with the constants that it names.
-/
namespace ApiRules

/-- Of the methods this is the first that the table has a declaration for, and this is the declaration. -/
def Table.Decides (t : Table) (methods : List Signature) (argument : UInt32) (method : Signature)
    (e : Table.Typedef) : Prop :=
  ∃ before after, methods = before ++ method :: after ∧ t.Declares method argument e ∧
    ∀ m ∈ before, ∀ f, ¬t.Declares m argument f

namespace Table

/-- A declaration takes from the constants the last rows of those that it names. -/
theorem Typedef.resolve_congr {e : Typedef} {constants constants' : List Constant}
    (h : ∀ name ∈ e.constants, ∀ raw, Gives constants' name raw ↔ Gives constants name raw) :
    e.resolve constants' = e.resolve constants := by
  have hc : ∀ name ∈ e.constants, constant? constants' name = constant? constants name := by
    intro name hname
    apply Option.ext
    intro raw
    rw [constant?_eq_some, constant?_eq_some, h name hname raw]
  have hint : e.constants.map (e.integer constants') = e.constants.map (e.integer constants) :=
    List.map_congr_left fun name hname => by simp only [integer, literal, hc name hname]
  have htext : e.constants.map (e.textValue constants') = e.constants.map (e.textValue constants) :=
    List.map_congr_left fun name hname => by simp only [textValue, literal, hc name hname]
  rw [resolve, resolve, hint, htext]

end Table

namespace Query

variable {t : Table} {digest : Option Digest} {d : Dataset}

theorem declaration?_eq_some (h : Dataset.ofTable t digest = .ok d) {argument : UInt32}
    {methods : List Signature} {m : Signature} {u : Typedef} :
    declaration? d argument methods = some (m, u) ↔
      ∃ e, t.Decides methods argument m e ∧ u = e.resolve t.constants := by
  have hnone : ∀ q, d.typedef? q argument = none ↔ ∀ f, ¬t.Declares q argument f := by
    intro q
    rw [Option.eq_none_iff_forall_ne_some]
    constructor
    · intro hall f hf
      exact hall _ ((Dataset.typedef?_eq_some h).2 ⟨f, hf, rfl⟩)
    · intro hall u hu
      obtain ⟨f, hf, -⟩ := (Dataset.typedef?_eq_some h).1 hu
      exact hall f hf
  simp only [declaration?, List.findSome?_eq_some_iff, Option.map_eq_some_iff, Option.map_eq_none_iff,
    Dataset.typedef?_eq_some h, hnone]
  constructor
  · rintro ⟨before, q, after, rfl, ⟨u', ⟨e, he, rfl⟩, hq⟩, hbefore⟩
    obtain ⟨rfl, rfl⟩ := Prod.mk.inj hq
    exact ⟨e, ⟨before, after, rfl, he, hbefore⟩, rfl⟩
  · rintro ⟨e, ⟨before, after, rfl, he, hbefore⟩, rfl⟩
    exact ⟨before, m, after, rfl, ⟨_, ⟨e, he, rfl⟩, rfl⟩, hbefore⟩

theorem resolveArgument_eq {call : Signature} (hcall : call.isMethod = true) {supertypes : List String}
    {owners : List Signature}
    (howners : List.Forall₂ (fun owner s => call.withOwner owner = .ok s) supertypes owners)
    (argument : UInt32) (value : Argument) :
    resolveArgument d call supertypes argument value =
      .ok ((declaration? d argument (call :: owners)).bind fun x =>
        (replacement? x.2 value).map fun r => ⟨r, x.1, x.2.source, x.2.artifact⟩) := by
  have hmapM : supertypes.mapM (onOwner call) = .ok owners := by
    apply mapM_eq_ok_iff.2
    apply howners.imp
    intro owner s hs
    simp only [onOwner, hs]
  rw [resolveArgument, if_pos hcall, hmapM]
  rfl

theorem resolveArgument_of_decides (h : Dataset.ofTable t digest = .ok d) {call : Signature}
    (hcall : call.isMethod = true) {supertypes : List String} {owners : List Signature}
    (howners : List.Forall₂ (fun owner s => call.withOwner owner = .ok s) supertypes owners)
    {argument : UInt32} {m : Signature} {e : Table.Typedef} (hm : t.Decides (call :: owners) argument m e)
    (value : Argument) :
    resolveArgument d call supertypes argument value =
      .ok ((replacement? (e.resolve t.constants) value).map fun r => ⟨r, m, e.source, e.artifact⟩) := by
  rw [resolveArgument_eq hcall howners, (declaration?_eq_some h).2 ⟨e, hm, rfl⟩]
  rfl

/-- What stands for an argument of a call. Nothing does if the table has no declaration about it for the call or
the call on a supertype. Otherwise the declaration of the first of them decides. The first constant that it
names with the value of the argument stands for it; flags do only if there is none. -/
theorem resolution_of_first_declaration (h : Dataset.ofTable t digest = .ok d) {call : Signature}
    (hcall : call.isMethod = true) {supertypes : List String} {owners : List Signature}
    (howners : List.Forall₂ (fun owner s => call.withOwner owner = .ok s) supertypes owners)
    (argument : UInt32) (value : Argument) :
    let answer := resolveArgument d call supertypes argument value
    ((¬∃ m e, t.Decides (call :: owners) argument m e) → answer = .ok none) ∧
    ∀ m e, t.Decides (call :: owners) argument m e →
      ∃ r, answer = .ok (r.map fun r => ⟨r, m, e.source, e.artifact⟩) ∧
        (∀ c, r = some (.constant c) ↔ Table.First (e.Stands t.constants value) e.constants c) ∧
        (∀ v names rest, r = some (.flags v names rest) → (∃ n, value = .integer n) ∧ e.kind ≠ .text ∧
          e.flag = true ∧ ∀ c, ¬Table.First (e.Stands t.constants value) e.constants c) ∧
        ((∃ n, value = .integer n ∧ e.kind = .text) ∨ (∃ s, value = .text s ∧ e.kind ≠ .text) → r = none) ∧
        ∀ (t' : Table) (digest' : Option Digest) (d' : Dataset) (call' : Signature)
          (supertypes' : List String) (owners' : List Signature),
          Dataset.ofTable t' digest' = .ok d' → call'.isMethod = true →
          List.Forall₂ (fun owner s => call'.withOwner owner = .ok s) supertypes' owners' →
          t'.Decides (call' :: owners') argument m e →
          (∀ name ∈ e.constants, ∀ raw, Table.Gives t'.constants name raw ↔ Table.Gives t.constants name raw) →
          resolveArgument d' call' supertypes' argument value = answer := by
  intro answer
  refine ⟨?_, ?_⟩
  · intro hno
    have hnone : declaration? d argument (call :: owners) = none := by
      apply Option.eq_none_iff_forall_ne_some.2
      rintro ⟨m, u⟩ hu
      obtain ⟨e, hm, -⟩ := (declaration?_eq_some h).1 hu
      exact hno ⟨m, e, hm⟩
    have ha := resolveArgument_eq (d := d) hcall howners argument value
    rwa [hnone] at ha
  · intro m e hm
    have ha := resolveArgument_of_decides h hcall howners hm value
    refine ⟨_, ha, fun c => replacement?_eq_constant, ?_, replacement?_eq_none, ?_⟩
    · intro v names rest hr
      obtain ⟨hflag, hkind, hfirst, n, hn, -⟩ := of_replacement?_eq_flags hr
      exact ⟨⟨n, hn⟩, hkind, hflag, hfirst⟩
    · intro t' digest' d' call' supertypes' owners' h' hcall' howners' hm' hgives
      have ha' := resolveArgument_of_decides h' hcall' howners' hm' value
      rw [Table.Typedef.resolve_congr hgives] at ha'
      exact ha'.trans ha.symm

/-- The second supertype declares the constants. The first name is not well formed, and of the two rows of the
second one the last counts. -/
theorem resolution_on_second_supertype :
    let member : Member := .method ⟨['m'], by decide⟩ [⟨.ofName "int", 0⟩]
    let call : Signature := ⟨.ofName "C", some member⟩
    let other : Signature := ⟨.ofName "A", some member⟩
    let base : Signature := ⟨.ofName "B", some member⟩
    let e : Table.Typedef := ⟨"B#m(int)", 0, .int, false, ["ONE", "K.ONE", "K.TWO"], .googleMaven, some "lib"⟩
    let t : Table := ⟨[], [e], [⟨"K.ONE", "1"⟩, ⟨"K.TWO", "2"⟩, ⟨"K.ONE", "0x2"⟩]⟩
    let d := Dataset.made none [] [(base, e.resolve t.constants)]
    Dataset.ofTable t none = .ok d ∧ call.isMethod = true ∧
      List.Forall₂ (fun owner s => call.withOwner owner = .ok s) ["A", "LB;"] [other, base] ∧
      t.Decides [call, other, base] 0 base e ∧
      resolveArgument d call ["A", "LB;"] 0 (.integer 2) =
        .ok (some ⟨.constant ⟨"K", "ONE"⟩, base, .googleMaven, some "lib"⟩) := by
  intro member call other base e t d
  have hp : Signature.parse e.method = .ok base := by decide
  have hd : Dataset.ofTable t none = .ok d := Dataset.ofTable_declaration none hp rfl t.constants
  have howners : List.Forall₂ (fun owner s => call.withOwner owner = .ok s) ["A", "LB;"] [other, base] :=
    .cons rfl (.cons rfl .nil)
  have hm : t.Decides [call, other, base] 0 base e := by
    refine ⟨[call, other], [], rfl, ⟨List.mem_singleton_self e, hp, rfl⟩, ?_⟩
    rintro m hm f ⟨hf, hpm, -⟩
    obtain rfl := List.mem_singleton.1 hf
    have hb : m = base := Except.ok.inj (hpm.symm.trans hp)
    rw [hb] at hm
    revert hm
    decide
  obtain ⟨r, hr, hconstant, -⟩ := (resolution_of_first_declaration hd rfl howners 0 (.integer 2)).2 base e hm
  have hfirst : Table.First (e.Stands t.constants (.integer 2)) e.constants ⟨"K", "ONE"⟩ :=
    replacement?_eq_constant.1 (by decide)
  obtain rfl := (hconstant _).2 hfirst
  exact ⟨hd, rfl, howners, hm, hr⟩

end Query

end ApiRules
