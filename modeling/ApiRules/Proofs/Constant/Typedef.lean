import ApiRules.Constant.Typedef
import ApiRules.Proofs.Constant.Literal
import ApiRules.Proofs.Results
import ApiRules.Proofs.Text.Cut

/-!
What a declaration makes of the constants that it names. A name counts if it is well formed and if its last
row in the table of constants has a value of the kind of the declaration.
-/
namespace ApiRules

/-- The name is written so: its parts are not empty, and the dot between them is the last one. -/
structure ConstantName.Names (c : ConstantName) (qualified : String) : Prop where
  text_eq : c.text = qualified
  owner_ne : c.owner ≠ ""
  name_ne : c.name ≠ ""
  dot_not_mem : '.' ∉ c.name.toList

theorem ConstantName.toList_text (c : ConstantName) :
    c.text.toList = c.owner.toList ++ '.' :: c.name.toList := by
  simp [text]

theorem ConstantName.parse?_eq_some {qualified : String} {c : ConstantName} :
    parse? qualified = some c ↔ c.Names qualified := by
  constructor
  · intro h
    rw [parse?] at h
    split at h
    · rename_i owner name hcut
      obtain ⟨hcs, hdot⟩ := Text.cutLast?_eq_some.1 hcut
      split at h
      · rename_i hne
        obtain rfl := Option.some.inj h
        refine ⟨?_, by simpa using hne.1, by simpa using hne.2, by simpa using hdot⟩
        apply String.toList_inj.1
        rw [toList_text, hcs, String.toList_ofList, String.toList_ofList]
      · cases h
    · cases h
  · rintro ⟨rfl, ho, hn, hdot⟩
    have hcut : Text.cutLast? '.' c.text.toList = some (c.owner.toList, c.name.toList) :=
      Text.cutLast?_eq_some.2 ⟨toList_text c, hdot⟩
    have hne : c.owner.toList ≠ [] ∧ c.name.toList ≠ [] := by simp [ho, hn]
    simp only [parse?, hcut, if_pos hne, String.ofList_toList]

namespace Table

/-- The last row of the constant has this literal. -/
def Gives (constants : List Constant) (name raw : String) : Prop :=
  ∃ before after, constants = before ++ ⟨name, raw⟩ :: after ∧ ∀ c ∈ after, c.name ≠ name

theorem constant?_eq_some {constants : List Constant} {name raw : String} :
    constant? constants name = some raw ↔ Gives constants name raw := by
  simp only [constant?, Option.map_eq_some_iff, List.find?_eq_some_iff_append, beq_iff_eq,
    List.reverse_eq_iff, List.reverse_append, List.reverse_cons, Bool.not_eq_true', beq_eq_false_iff_ne]
  constructor
  · rintro ⟨⟨_, _⟩, ⟨rfl, after, before, rfl, hafter⟩, rfl⟩
    refine ⟨before.reverse, after.reverse, by simp, fun c hc => hafter c (List.mem_reverse.1 hc)⟩
  · rintro ⟨before, after, rfl, hafter⟩
    refine ⟨⟨name, raw⟩, ⟨rfl, after.reverse, before.reverse, by simp, ?_⟩, rfl⟩
    exact fun c hc => hafter c (List.mem_reverse.1 hc)

/-- Of several names that are declared, this constant is the one of the first name with the property. -/
def First (p : String → ConstantName → Prop) (names : List String) (c : ConstantName) : Prop :=
  ∃ before name after, names = before ++ name :: after ∧ p name c ∧ ∀ n ∈ before, ∀ b, ¬p n b

theorem first_nil {p : String → ConstantName → Prop} {c : ConstantName} : ¬First p [] c := by
  rintro ⟨before, name, after, h, -, -⟩
  cases before <;> cases h

theorem first_cons_of_pos {p : String → ConstantName → Prop} {name : String} {names : List String}
    {b c : ConstantName} (hp : ∀ a, p name a ↔ a = b) : First p (name :: names) c ↔ c = b := by
  constructor
  · rintro ⟨before, n, after, h, hc, hbefore⟩
    cases before with
    | nil =>
      obtain ⟨rfl, -⟩ := List.cons.inj h
      exact (hp c).1 hc
    | cons m before =>
      obtain ⟨rfl, -⟩ := List.cons.inj h
      exact absurd ((hp b).2 rfl) (hbefore name List.mem_cons_self b)
  · rintro rfl
    exact ⟨[], name, names, rfl, (hp c).2 rfl, by simp⟩

theorem first_cons_of_neg {p : String → ConstantName → Prop} {name : String} {names : List String}
    {c : ConstantName} (hp : ∀ a, ¬p name a) : First p (name :: names) c ↔ First p names c := by
  constructor
  · rintro ⟨before, n, after, h, hc, hbefore⟩
    cases before with
    | nil =>
      obtain ⟨rfl, -⟩ := List.cons.inj h
      exact absurd hc (hp c)
    | cons m before =>
      obtain ⟨rfl, rfl⟩ := List.cons.inj h
      exact ⟨before, n, after, rfl, hc, fun k hk => hbefore k (List.mem_cons_of_mem _ hk)⟩
  · rintro ⟨before, n, after, rfl, hc, hbefore⟩
    refine ⟨name :: before, n, after, rfl, hc, fun k hk => ?_⟩
    obtain rfl | hk := List.mem_cons.1 hk
    · exact hp
    · exact hbefore k hk

namespace Typedef

theorem literal_eq_ok {constants : List Constant} {method qualified raw : String} {c : ConstantName} :
    literal constants method qualified = .ok (c, raw) ↔ c.Names qualified ∧ Gives constants qualified raw := by
  rw [← ConstantName.parse?_eq_some, ← constant?_eq_some, literal]
  cases ConstantName.parse? qualified with
  | none => simp
  | some name => cases constant? constants qualified <;> simp

theorem integer_eq_ok {constants : List Constant} {t : Typedef} {qualified : String} {v : Int64}
    {c : ConstantName} : t.integer constants qualified = .ok (v, c) ↔
      ∃ raw, c.Names qualified ∧ Gives constants qualified raw ∧ Literal.parse? raw t.kind = some v := by
  rw [integer, bind_eq_ok_iff]
  constructor
  · rintro ⟨⟨name, raw⟩, hl, h⟩
    obtain ⟨hn, hg⟩ := literal_eq_ok.1 hl
    cases hv : Literal.parse? raw t.kind with
    | none =>
      simp only [hv] at h
      cases h
    | some value =>
      simp only [hv] at h
      obtain ⟨rfl, rfl⟩ := Prod.mk.inj (Except.ok.inj h)
      exact ⟨raw, hn, hg, hv⟩
  · rintro ⟨raw, hn, hg, hv⟩
    refine ⟨(c, raw), literal_eq_ok.2 ⟨hn, hg⟩, ?_⟩
    simp only [hv]
    rfl

theorem textValue_eq_ok {constants : List Constant} {t : Typedef} {qualified s : String} {c : ConstantName} :
    t.textValue constants qualified = .ok (s, c) ↔ c.Names qualified ∧ Gives constants qualified s := by
  rw [textValue, bind_eq_ok_iff]
  constructor
  · rintro ⟨⟨name, raw⟩, hl, h⟩
    obtain ⟨rfl, rfl⟩ := Prod.mk.inj (Except.ok.inj h)
    exact literal_eq_ok.1 hl
  · intro h
    exact ⟨(c, s), literal_eq_ok.2 h, rfl⟩

theorem mem_results {ε α β : Type} {f : α → Except ε β} {as : List α} {b : β} :
    b ∈ results (as.map f) ↔ ∃ a ∈ as, f a = .ok b := by
  simp only [results, List.mem_filterMap, List.mem_map, exists_exists_and_eq_and]
  apply exists_congr
  intro a
  cases f a <;> simp [Except.toOption]

theorem values_resolve_of_ne_text {t : Typedef} (h : t.kind ≠ .text) (constants : List Constant) :
    (t.resolve constants).values = .integers (results (t.constants.map (t.integer constants))) := by
  cases hk : t.kind with
  | text => exact absurd hk h
  | int | long => simp only [resolve, hk]

theorem values_resolve_of_text {t : Typedef} (h : t.kind = .text) (constants : List Constant) :
    (t.resolve constants).values = .texts (results (t.constants.map (t.textValue constants))) := by
  simp only [resolve, h]

/-- The values of a declaration of `int` constants are those of words of 32 bits. -/
theorem isInt_of_mem_integer {t : Typedef} (h : t.kind = .int) {constants : List Constant}
    {x : Int64 × ConstantName} (hx : x ∈ results (t.constants.map (t.integer constants))) : IsInt x.1 := by
  obtain ⟨qualified, -, hq⟩ := mem_results.1 hx
  obtain ⟨raw, -, -, hv⟩ := integer_eq_ok.1 hq
  rw [h] at hv
  exact isInt_of_parse? hv

end Typedef

end Table

end ApiRules
