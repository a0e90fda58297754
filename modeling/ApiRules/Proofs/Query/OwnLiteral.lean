import ApiRules.Proofs.Constant.Narrowing
import ApiRules.Proofs.Query.Resolution

/-!
Constants that are asked for by their own literals. The literal is read as that of a `long`, and narrowing
its value to the kind of the declaration finds the first constant with the value.
-/
namespace ApiRules

namespace Table

theorem gives_inj {constants : List Constant} {name raw raw' : String} (h : Gives constants name raw)
    (h' : Gives constants name raw') : raw = raw' :=
  Option.some.inj ((constant?_eq_some.2 h).symm.trans (constant?_eq_some.2 h'))

theorem exists_first {p : String → ConstantName → Prop} {names : List String} {name : String}
    {b : ConstantName} (hname : name ∈ names) (hb : p name b) : ∃ c, First p names c := by
  induction names with
  | nil => cases hname
  | cons n names ih =>
    by_cases hn : ∃ c, p n c
    · obtain ⟨c, hc⟩ := hn
      exact ⟨c, [], n, names, rfl, hc, by simp⟩
    · obtain rfl | hmem := List.mem_cons.1 hname
      · exact absurd ⟨b, hb⟩ hn
      · obtain ⟨c, hc⟩ := ih hmem
        exact ⟨c, (first_cons_of_neg (not_exists.1 hn)).2 hc⟩

/-- The constant that is declared under this name has this value. -/
def Typedef.Keeps (constants : List Constant) (e : Typedef) (v : Int64) (name : String)
    (c : ConstantName) : Prop :=
  ∃ raw, c.Names name ∧ Gives constants name raw ∧ Literal.parse? raw e.kind = some v

theorem Typedef.value_unique {constants : List Constant} {e : Typedef} {v v' : Int64} {name name' : String}
    {c : ConstantName} (h : e.Keeps constants v name c) (h' : e.Keeps constants v' name' c) : v = v' := by
  obtain ⟨raw, hn, hg, hv⟩ := h
  obtain ⟨raw', hn', hg', hv'⟩ := h'
  obtain rfl := hn.text_eq.symm.trans hn'.text_eq
  obtain rfl := gives_inj hg hg'
  exact Option.some.inj (hv.symm.trans hv')

end Table

namespace Query

open Table

theorem parse_of_literal {raw : String} {kind : ConstantKind} {v : Int64}
    (h : Literal.parse? raw kind = some v) :
    ∃ w, Literal.parse? raw .long = some w ∧
      (kind.coerce w = v ↔ ¬(kind = .int ∧ Literal.NegatedBeyondInt raw)) := by
  cases kind with
  | int =>
    obtain ⟨w, hw, hiff⟩ := Literal.long_of_int h
    exact ⟨w, hw, by simpa using hiff⟩
  | long => exact ⟨v, h, by simp [ConstantKind.coerce_long]⟩
  | text => cases h

theorem parse_eq_integer {raw : String} {w : Int64} (h : Literal.parse? raw .long = some w) :
    Argument.parse raw = .integer w := by
  simp only [Argument.parse, h]

variable {t : Table} {digest : Option Digest} {d : Dataset}

/-- What the call itself declares decides about its arguments. -/
theorem resolveArgument_eq_constant (h : Dataset.ofTable t digest = .ok d) {m : Signature}
    {argument : UInt32} {e : Table.Typedef} (he : t.Declares m argument e) {n : Int64} {c : ConstantName} :
    resolveArgument d m [] argument (.integer n) = .ok (some ⟨.constant c, m, e.source, e.artifact⟩) ↔
      First (e.Keeps t.constants (e.kind.coerce n)) e.constants c := by
  have hm : t.Decides [m] argument m e := ⟨[], [], rfl, he, by simp⟩
  have hkeeps : e.Stands t.constants (.integer n) = e.Keeps t.constants (e.kind.coerce n) := rfl
  rw [resolveArgument_of_decides h (he.isMethod h) .nil hm, ← hkeeps, ← replacement?_eq_constant]
  simp

/-- A literal of a constant, read as that of a `long` and narrowed, is the value of the constant. Asked for by
its own literal a declared constant is found, or one that is declared before it with the same value. The only
exception is an `int` constant whose literal negates a hexadecimal number beyond those of the `int`s. -/
theorem constant_of_own_literal {raw : String} {kind : ConstantKind} {v : Int64}
    (hv : Literal.parse? raw kind = some v) :
    (∃ w, Literal.parse? raw .long = some w ∧
      (kind.coerce w = v ↔ ¬(kind = .int ∧ Literal.NegatedBeyondInt raw))) ∧
    ∀ (t : Table) (digest : Option Digest) (d : Dataset) (m : Signature) (argument : UInt32)
      (e : Table.Typedef), Dataset.ofTable t digest = .ok d → t.Declares m argument e → e.kind = kind →
      ∀ name ∈ e.constants, ∀ c : ConstantName, c.Names name → Gives t.constants name raw →
        ∃ b, First (e.Keeps t.constants v) e.constants b ∧
          (resolveArgument d m [] argument (Argument.parse raw) =
              .ok (some ⟨.constant b, m, e.source, e.artifact⟩) ↔
            ¬(kind = .int ∧ Literal.NegatedBeyondInt raw)) := by
  obtain ⟨w, hw, hiff⟩ := parse_of_literal hv
  refine ⟨⟨w, hw, hiff⟩, ?_⟩
  intro t digest d m argument e h he hkind name hname c hc hraw
  subst hkind
  obtain ⟨b, hb⟩ := exists_first (p := e.Keeps t.constants v) hname ⟨raw, hc, hraw, hv⟩
  refine ⟨b, hb, ?_⟩
  rw [parse_eq_integer hw, resolveArgument_eq_constant h he, ← hiff]
  constructor
  · -- one constant has one value, so that what is found shows what was looked for
    rintro ⟨-, _, -, -, hkept, -⟩
    obtain ⟨-, _, -, -, hkept', -⟩ := hb
    exact Typedef.value_unique hkept hkept'
  · intro hcoerce
    rwa [hcoerce]

/-- The bits of an `int` find the constant that is declared before with the value that they state. -/
theorem constant_of_bits :
    let base : Signature := ⟨.ofName "B", some (.method ⟨['m'], by decide⟩ [⟨.ofName "int", 0⟩])⟩
    let e : Table.Typedef := ⟨"B#m(int)", 0, .int, false, ["K.NONE", "K.BITS"], .sdkLint, none⟩
    let t : Table := ⟨[], [e], [⟨"K.BITS", "0xFFFFFFFF"⟩, ⟨"K.NONE", " -1"⟩]⟩
    let d := Dataset.made none [] [(base, e.resolve t.constants)]
    Dataset.ofTable t none = .ok d ∧ t.Declares base 0 e ∧ Gives t.constants "K.BITS" "0xFFFFFFFF" ∧
      Literal.parse? "0xFFFFFFFF" .int = some (-1) ∧
      resolveArgument d base [] 0 (Argument.parse "0xFFFFFFFF") =
        .ok (some ⟨.constant ⟨"K", "NONE"⟩, base, .sdkLint, none⟩) := by
  intro base e t d
  have hp : Signature.parse e.method = .ok base := by decide
  have hd : Dataset.ofTable t none = .ok d := Dataset.ofTable_declaration none hp rfl t.constants
  have he : t.Declares base 0 e := ⟨List.mem_singleton_self e, hp, rfl⟩
  have hraw : Gives t.constants "K.BITS" "0xFFFFFFFF" := ⟨[], _, rfl, by decide⟩
  have hv : Literal.parse? "0xFFFFFFFF" .int = some (-1) := by decide
  obtain ⟨b, hb, hfound⟩ := (constant_of_own_literal hv).2 t none d base 0 e hd he rfl "K.BITS" (by decide)
    ⟨"K", "BITS"⟩ ⟨rfl, by decide, by decide, by decide⟩ hraw
  have hhex : Literal.Hexadecimal (Text.trim "0xFFFFFFFF".toList) false 4294967295 :=
    ⟨'x', "FFFFFFFF".toList, .inl rfl, by decide, by decide⟩
  have hb' : replacement? (e.resolve t.constants) (.integer (-1)) = some (.constant b) :=
    replacement?_eq_constant.2 hb
  have hnone : replacement? (e.resolve t.constants) (.integer (-1)) = some (.constant ⟨"K", "NONE"⟩) := by
    decide
  obtain rfl := Replacement.constant.inj (Option.some.inj (hb'.symm.trans hnone))
  refine ⟨hd, he, hraw, hv, hfound.2 ?_⟩
  rintro ⟨-, hbeyond⟩
  exact Bool.false_ne_true ((Literal.negatedBeyondInt_iff hhex).1 hbeyond).1

/-- The negation of the bits of `-1` is kept as an `int` of value `1`. Read as a `long` it is less than every
`int`, and no constant is found. -/
theorem none_of_negated_bits :
    let base : Signature := ⟨.ofName "B", some (.method ⟨['m'], by decide⟩ [⟨.ofName "int", 0⟩])⟩
    let e : Table.Typedef := ⟨"B#m(int)", 0, .int, false, ["K.ONE"], .sdkLint, none⟩
    let t : Table := ⟨[], [e], [⟨"K.ONE", "-0xFFFFFFFF"⟩]⟩
    let d := Dataset.made none [] [(base, e.resolve t.constants)]
    (Dataset.ofTable t none = .ok d ∧ t.Declares base 0 e ∧ Gives t.constants "K.ONE" "-0xFFFFFFFF" ∧
      First (e.Keeps t.constants 1) e.constants ⟨"K", "ONE"⟩) ∧
    resolveArgument d base [] 0 (Argument.parse "-0xFFFFFFFF") = .ok none ∧
    Literal.parse? "-0xFFFFFFFF" .int = some 1 ∧
      ∃ w, Literal.parse? "-0xFFFFFFFF" .long = some w ∧ ConstantKind.int.coerce w ≠ 1 := by
  intro base e t d
  have hp : Signature.parse e.method = .ok base := by decide
  have hd : Dataset.ofTable t none = .ok d := Dataset.ofTable_declaration none hp rfl t.constants
  have he : t.Declares base 0 e := ⟨List.mem_singleton_self e, hp, rfl⟩
  have hm : t.Decides [base] 0 base e := ⟨[], [], rfl, he, by simp⟩
  have hone : replacement? (e.resolve t.constants) (.integer 1) = some (.constant ⟨"K", "ONE"⟩) := by decide
  have hlong : Literal.parse? "-0xFFFFFFFF" .long = some (-4294967295) := by decide
  have hnone : replacement? (e.resolve t.constants) (.integer (-4294967295)) = none := by decide
  refine ⟨⟨hd, he, ⟨[], [], rfl, by simp⟩, replacement?_eq_constant.1 hone⟩, ?_, by decide, -4294967295, hlong, by decide⟩
  rw [parse_eq_integer hlong, resolveArgument_of_decides hd rfl .nil hm, hnone]
  rfl

end Query

end ApiRules
