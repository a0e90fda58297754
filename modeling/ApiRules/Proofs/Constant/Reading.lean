import ApiRules.Proofs.Constant.Narrowing
import ApiRules.Proofs.Constant.Typedef
import ApiRules.Proofs.Text.Number
import Mathlib.Data.Int.ModEq

/-!
What literals are read as. Hexadecimal digits state the bits of a word, decimal ones a number that a signed word
has, and nothing else is a literal. No number is lost or changed on the way to the 64 bits that values have.
-/
namespace ApiRules

/-- The number is that of a signed word of `width` bits. -/
def Fits (width : Nat) (x : Int) : Prop := -2 ^ (width - 1) ≤ x ∧ x < 2 ^ (width - 1)

instance (width : Nat) (x : Int) : Decidable (Fits width x) := inferInstanceAs (Decidable (_ ∧ _))

theorem wordCount_eq_pow (width : Nat) : (wordCount width : Int) = 2 ^ width := Nat.cast_pow 2 width

theorem fits_iff {width : Nat} {x : Int} :
    Fits (width + 1) x ↔ -(wordCount width : Int) ≤ x ∧ x < wordCount width := by
  rw [Fits, Nat.add_sub_cancel, wordCount_eq_pow]

/-- Each number is congruent to the number of one signed word. -/
theorem eq_bmod_iff {width : Nat} {x y : Int} :
    x = y.bmod (wordCount (width + 1)) ↔ Fits (width + 1) x ∧ x ≡ y [ZMOD 2 ^ (width + 1)] := by
  have hw := wordCount_succ width
  rw [eq_comm, Int.bmod_eq_iff (wordCount_pos _), fits_iff, Int.modEq_comm, Int.modEq_iff_dvd, ← wordCount_eq_pow,
    and_assoc]
  refine and_congr ?_ (and_congr ?_ Iff.rfl) <;> omega

namespace Literal

/-- The mark of hexadecimal digits, and digits of the number, behind a minus sign or not. -/
def StatesBits (cs : List Char) (negative : Bool) (n : Nat) : Prop :=
  ∃ mark digits, (mark = 'x' ∨ mark = 'X') ∧ cs = sign negative ++ '0' :: mark :: digits ∧
    Text.Numeral 16 digits n

theorem statesBits_iff {cs : List Char} {negative : Bool} {n : Nat} :
    StatesBits cs negative n ↔ Hexadecimal cs negative n := by
  simp only [StatesBits, Hexadecimal, Text.hex?_eq_some]

variable {width : Nat} {cs : List Char} {x : Int}

theorem ofChars?_of_statesBits {negative : Bool} {n : Nat} (h : StatesBits cs negative n) :
    ofChars? (width + 1) cs = some x ↔
      n < 2 ^ (width + 1) ∧ Fits (width + 1) x ∧ x ≡ signed negative n [ZMOD 2 ^ (width + 1)] := by
  rw [← eq_bmod_iff, ofChars?_eq_some]
  constructor
  · rintro (⟨negative', m, hm, hlt, rfl⟩ | hs)
    · obtain ⟨rfl, rfl⟩ := hexadecimal_inj hm (statesBits_iff.1 h)
      exact ⟨hlt, rfl⟩
    · obtain ⟨mark, digits, hmark, rfl, -⟩ := h
      rw [Text.signedWord?, integer?_eq_none hmark] at hs
      cases hs
  · rintro ⟨hlt, rfl⟩
    exact .inl ⟨negative, n, statesBits_iff.1 h, hlt, rfl⟩

theorem isSome_ofChars?_of_statesBits {negative : Bool} {n : Nat} (h : StatesBits cs negative n) :
    (ofChars? (width + 1) cs).isSome = true ↔ n < 2 ^ (width + 1) := by
  simp only [Option.isSome_iff_exists, ofChars?_of_statesBits h]
  constructor
  · rintro ⟨x, hlt, -⟩
    exact hlt
  · intro hlt
    exact ⟨_, hlt, eq_bmod_iff.1 rfl⟩

theorem ofChars?_of_not_statesBits (h : ¬∃ negative n, StatesBits cs negative n) :
    ofChars? (width + 1) cs = some x ↔ Text.SignedNumeral cs x ∧ Fits (width + 1) x := by
  rw [ofChars?_eq_some, signedWord?_eq_some, Text.integer?_eq_some, fits_iff, Nat.add_sub_cancel]
  apply or_iff_right
  rintro ⟨negative, n, hx, -, -⟩
  exact h ⟨negative, n, statesBits_iff.2 hx⟩

theorem fits_of_ofChars? (h : ofChars? (width + 1) cs = some x) : Fits (width + 1) x :=
  fits_iff.2 (bounds_of_ofChars? h)

theorem ofChars?_toString (h : Fits (width + 1) x) : ofChars? (width + 1) (toString x).toList = some x := by
  apply ofChars?_eq_some.2
  right
  rw [signedWord?_eq_some, Nat.add_sub_cancel]
  exact ⟨Text.integer?_toString x, fits_iff.1 h⟩

/-- The value of a literal, as a number. -/
def number? (kind : ConstantKind) (raw : String) : Option Int := (parse? raw kind).map Int64.toInt

theorem number?_eq {kind : ConstantKind} (hk : kind.width? = some (width + 1)) (raw : String) :
    number? kind raw = ofChars? (width + 1) (Text.trim raw.toList) := by
  rw [number?, parse?, hk, Option.bind_some, Option.map_map]
  cases h : ofChars? (width + 1) (Text.trim raw.toList) with
  | none => rfl
  | some x => exact congrArg some (toInt_ofInt_of_ofChars? (ConstantKind.lt_of_width? hk) h)

end Literal

theorem ConstantKind.ne_text_of_width? {kind : ConstantKind} {width : Nat} (hk : kind.width? = some width) :
    kind ≠ .text := by
  rintro rfl
  cases hk

theorem ConstantKind.exists_width_succ {kind : ConstantKind} {width : Nat} (hk : kind.width? = some width) :
    ∃ n, width = n + 1 := by
  cases kind with
  | int | long => exact ⟨_, (Option.some.inj hk).symm⟩
  | text => cases hk

theorem Table.Typedef.fits_of_mem_integer {t : Table.Typedef} {width : Nat} (hk : t.kind.width? = some (width + 1))
    {constants : List Table.Constant} {e : Int64 × ConstantName}
    (he : e ∈ results (t.constants.map (t.integer constants))) : Fits (width + 1) e.1.toInt := by
  obtain ⟨qualified, -, hq⟩ := mem_results.1 he
  obtain ⟨raw, -, -, hv⟩ := integer_eq_ok.1 hq
  exact Literal.fits_of_ofChars? ((Literal.parse?_eq_some hk).1 hv)

/-- A literal that states the bits of a word is read if the word has so many bits, as the signed number that is
congruent to what the digits say. Any other literal is read if it is a decimal number, with a sign or without one,
of a signed word, and as this number. So the text of a number is read as the number, what is kept is what was read
with no bound on numbers, and each value of a declaration is the number of a word of its kind. -/
theorem literals_read_exactly {kind : ConstantKind} {width : Nat} (hk : kind.width? = some width) :
    (∀ raw negative n, Literal.StatesBits (Text.trim raw.toList) negative n →
      ((Literal.number? kind raw).isSome = true ↔ n < 2 ^ width) ∧
      ∀ x, Literal.number? kind raw = some x ↔
        n < 2 ^ width ∧ Fits width x ∧ x ≡ Literal.signed negative n [ZMOD 2 ^ width]) ∧
    (∀ raw, (¬∃ negative n, Literal.StatesBits (Text.trim raw.toList) negative n) →
      ∀ x, Literal.number? kind raw = some x ↔ Text.SignedNumeral (Text.trim raw.toList) x ∧ Fits width x) ∧
    (∀ x, Fits width x → Literal.number? kind (toString x) = some x) ∧
    (∀ raw, Literal.number? kind raw = Literal.ofChars? width (Text.trim raw.toList)) ∧
    (∀ (t : Table.Typedef) constants, t.kind = kind →
      ∃ values, (t.resolve constants).values = .integers values ∧ ∀ e ∈ values, Fits width e.1.toInt) := by
  obtain ⟨width, rfl⟩ := ConstantKind.exists_width_succ hk
  refine ⟨?_, ?_, ?_, Literal.number?_eq hk, ?_⟩
  · intro raw negative n h
    rw [Literal.number?_eq hk]
    exact ⟨Literal.isSome_ofChars?_of_statesBits h, fun x => Literal.ofChars?_of_statesBits h⟩
  · intro raw h x
    rw [Literal.number?_eq hk]
    exact Literal.ofChars?_of_not_statesBits h
  · intro x hx
    rw [Literal.number?_eq hk, Text.trim_toString]
    exact Literal.ofChars?_toString hx
  · rintro t constants rfl
    refine ⟨_, Table.Typedef.values_resolve_of_ne_text (ConstantKind.ne_text_of_width? hk) constants, ?_⟩
    intro e he
    exact Table.Typedef.fits_of_mem_integer hk he

/-- The bits of the least `int` are read with a sign and without one, and its decimal text is read; one bit more is
not. -/
theorem literals_at_least_int : ConstantKind.int.width? = some 32 ∧
    Literal.number? .int "0x80000000" = some (-2147483648) ∧
    Literal.number? .int " -0X0080000000 " = some (-2147483648) ∧
    Literal.number? .int (toString (-2147483648 : Int)) = some (-2147483648) ∧
    (Literal.number? .int "0x100000000").isSome = false := by
  obtain ⟨hbits, -, htext, -⟩ := literals_read_exactly (show ConstantKind.int.width? = some 32 from rfl)
  have hplain : Literal.StatesBits (Text.trim "0x80000000".toList) false 0x80000000 :=
    ⟨'x', "80000000".toList, .inl rfl, by decide, Text.hex?_eq_some.1 (by decide)⟩
  have hsigned : Literal.StatesBits (Text.trim " -0X0080000000 ".toList) true 0x80000000 :=
    ⟨'X', "0080000000".toList, .inr rfl, by decide, Text.hex?_eq_some.1 (by decide)⟩
  have hlong : Literal.StatesBits (Text.trim "0x100000000".toList) false 0x100000000 :=
    ⟨'x', "100000000".toList, .inl rfl, by decide, Text.hex?_eq_some.1 (by decide)⟩
  refine ⟨rfl, ((hbits _ _ _ hplain).2 _).2 ?_, ((hbits _ _ _ hsigned).2 _).2 ?_, htext _ ?_, ?_⟩
  · exact ⟨by decide, by decide, by decide⟩
  · exact ⟨by decide, by decide, by decide⟩
  · decide
  · rw [Bool.eq_false_iff, ne_eq, (hbits _ _ _ hlong).1]
    decide

end ApiRules
