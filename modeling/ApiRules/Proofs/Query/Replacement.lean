import ApiRules.Proofs.Constant.Typedef
import ApiRules.Query.Argument

/-!
What stands for an argument under one declaration: the first declared constant of its value, or a union of
flags. Texts do not stand for integers, nor integers for texts.
-/
namespace ApiRules

/-- The constant that is declared as `qualified` has the value of the argument. -/
def Table.Typedef.Stands (constants : List Table.Constant) (t : Table.Typedef) (value : Query.Argument)
    (qualified : String) (c : ConstantName) : Prop :=
  ∃ raw, c.Names qualified ∧ Gives constants qualified raw ∧
    match value with
    | .integer n => Literal.parse? raw t.kind = some (t.kind.coerce n)
    | .text s => t.kind = .text ∧ raw = s

namespace Query

open Table Table.Typedef

theorem nameOf?_results {ε α : Type} [DecidableEq α] {f : String → Except ε (α × ConstantName)}
    {names : List String} {v : α} {c : ConstantName} :
    nameOf? (results (names.map f)) v = some c ↔ First (fun n b => f n = .ok (v, b)) names c := by
  induction names with
  | nil => simp [results, nameOf?, first_nil]
  | cons n names ih =>
    cases hf : f n with
    | error e =>
      rw [first_cons_of_neg (by simp [hf]), ← ih, List.map_cons, hf]
      rfl
    | ok x =>
      obtain ⟨w, b⟩ := x
      by_cases hw : w = v
      · rw [first_cons_of_pos (b := b) (by simp [hf, hw, eq_comm]), List.map_cons, hf]
        simp [results, nameOf?, Except.toOption, hw, eq_comm]
      · rw [first_cons_of_neg (by simp [hf, hw]), ← ih, List.map_cons, hf]
        simp [results, nameOf?, Except.toOption, hw]

variable {t : Table.Typedef} {constants : List Table.Constant}

theorem replacement?_integer (h : t.kind ≠ .text) (constants : List Table.Constant) (n : Int64) :
    replacement? (t.resolve constants) (.integer n) =
      match nameOf? (results (t.constants.map (t.integer constants))) (t.kind.coerce n) with
      | some name => some (.constant name)
      | none =>
        if t.flag then unfoldFlags (results (t.constants.map (t.integer constants))) (t.kind.coerce n)
        else none := by
  simp only [replacement?, values_resolve_of_ne_text h]
  rfl

theorem replacement?_text (h : t.kind = .text) (constants : List Table.Constant) (s : String) :
    replacement? (t.resolve constants) (.text s) =
      (nameOf? (results (t.constants.map (t.textValue constants))) s).map .constant := by
  simp only [replacement?, values_resolve_of_text h]

/-- Texts do not stand for integers, nor integers for texts. -/
theorem replacement?_eq_none {value : Argument}
    (h : (∃ n, value = .integer n ∧ t.kind = .text) ∨ ∃ s, value = .text s ∧ t.kind ≠ .text) :
    replacement? (t.resolve constants) value = none := by
  obtain ⟨n, rfl, hk⟩ | ⟨s, rfl, hk⟩ := h
  · simp only [replacement?, values_resolve_of_text hk]
  · simp only [replacement?, values_resolve_of_ne_text hk]

theorem unfoldFlags_ne_constant (flags : List (Int64 × ConstantName)) (value : Int64) (c : ConstantName) :
    unfoldFlags flags value ≠ some (.constant c) := by
  intro h
  rw [unfoldFlags] at h
  split at h
  split at h
  · cases h
  · cases h

theorem stands_integer {qualified : String} {n : Int64} {c : ConstantName} :
    t.Stands constants (.integer n) qualified c ↔ t.integer constants qualified = .ok (t.kind.coerce n, c) :=
  integer_eq_ok.symm

theorem stands_text (h : t.kind = .text) {qualified s : String} {c : ConstantName} :
    t.Stands constants (.text s) qualified c ↔ t.textValue constants qualified = .ok (s, c) := by
  rw [textValue_eq_ok]
  constructor
  · rintro ⟨raw, hn, hg, -, rfl⟩
    exact ⟨hn, hg⟩
  · rintro ⟨hn, hg⟩
    exact ⟨s, hn, hg, h, rfl⟩

theorem not_stands_of_kind {value : Argument}
    (h : (∃ n, value = .integer n ∧ t.kind = .text) ∨ ∃ s, value = .text s ∧ t.kind ≠ .text)
    (qualified : String) (c : ConstantName) : ¬t.Stands constants value qualified c := by
  rintro ⟨raw, -, -, hv⟩
  obtain ⟨n, rfl, hk⟩ | ⟨s, rfl, hk⟩ := h
  · simp [hk, Literal.parse?, ConstantKind.width?] at hv
  · exact hk hv.1

/-- A constant stands for the argument if it is the first that is declared with the value. -/
theorem replacement?_eq_constant {value : Argument} {c : ConstantName} :
    replacement? (t.resolve constants) value = some (.constant c) ↔
      First (t.Stands constants value) t.constants c := by
  have hnone : ((∃ n, value = .integer n ∧ t.kind = .text) ∨ ∃ s, value = .text s ∧ t.kind ≠ .text) →
      (replacement? (t.resolve constants) value = some (.constant c) ↔
        First (t.Stands constants value) t.constants c) := by
    intro h
    rw [replacement?_eq_none h]
    constructor
    · intro h
      cases h
    · rintro ⟨before, name, after, -, hs, -⟩
      exact absurd hs (not_stands_of_kind h name c)
  cases value with
  | integer n =>
    by_cases hk : t.kind = .text
    · exact hnone (.inl ⟨n, rfl, hk⟩)
    · have hs : t.Stands constants (.integer n) =
          fun q b => t.integer constants q = .ok (t.kind.coerce n, b) := by
        funext q b
        exact propext stands_integer
      rw [replacement?_integer hk, hs, ← nameOf?_results]
      split
      · rename_i name hname
        rw [hname]
        simp
      · rename_i hname
        rw [hname]
        split
        · simp [unfoldFlags_ne_constant]
        · simp
  | text s =>
    by_cases hk : t.kind = .text
    · have hs : t.Stands constants (.text s) = fun q b => t.textValue constants q = .ok (s, b) := by
        funext q b
        exact propext (stands_text hk)
      rw [replacement?_text hk, hs, ← nameOf?_results]
      simp
    · exact hnone (.inr ⟨s, rfl, hk⟩)

/-- Flags stand for an integer only, and only if no constant does. -/
theorem of_replacement?_eq_flags {value : Argument} {v : Int64} {names : List ConstantName}
    {rest : Option Int64} (h : replacement? (t.resolve constants) value = some (.flags v names rest)) :
    t.flag = true ∧ t.kind ≠ .text ∧ (∀ c, ¬First (t.Stands constants value) t.constants c) ∧
      ∃ n, value = .integer n ∧
        unfoldFlags (results (t.constants.map (t.integer constants))) (t.kind.coerce n) =
          some (.flags v names rest) := by
  have hfirst : ∀ c, ¬First (t.Stands constants value) t.constants c := by
    intro c hc
    rw [replacement?_eq_constant.2 hc] at h
    cases h
  by_cases hk : t.kind = .text
  · cases value with
    | integer n =>
      rw [replacement?_eq_none (.inl ⟨n, rfl, hk⟩)] at h
      cases h
    | text s =>
      rw [replacement?_text hk] at h
      obtain ⟨name, -, hn⟩ := Option.map_eq_some_iff.1 h
      cases hn
  · cases value with
    | integer n =>
      rw [replacement?_integer hk] at h
      split at h
      · cases h
      · split at h
        · exact ⟨‹_›, hk, hfirst, n, rfl, h⟩
        · cases h
    | text s =>
      rw [replacement?_eq_none (.inr ⟨s, rfl, hk⟩)] at h
      cases h

end Query

end ApiRules
