import ApiRules.Proofs.Constant.Literal

/-!
Literals of `int` constants that are read as those of `long` ones. Narrowing the `long` gives the `int`
back, unless the literal negates a hexadecimal number that no negative `int` reaches.
-/
namespace ApiRules

namespace Literal

theorem hexadecimal_inj {cs : List Char} {a b : Bool} {m n : Nat} (hm : Hexadecimal cs a m)
    (hn : Hexadecimal cs b n) : a = b ∧ m = n := by
  obtain ⟨mark, digits, -, rfl, hd⟩ := hm
  obtain ⟨mark', digits', -, he, hd'⟩ := hn
  have hcons : a = b ∧ digits = digits' := by
    cases a <;> cases b <;> simp [sign] at he ⊢
    · exact he.2
    · exact he.2
  obtain ⟨rfl, rfl⟩ := hcons
  exact ⟨rfl, Option.some.inj (hd.symm.trans hd')⟩

/-- The literal negates a hexadecimal number that is greater than that of the least `int`. -/
def NegatedBeyondInt (raw : String) : Prop :=
  ∃ n, Hexadecimal (Text.trim raw.toList) true n ∧ wordCount 31 < n

theorem not_negatedBeyondInt_of_signedWord? {width : Nat} {raw : String} {x : Int}
    (h : Text.signedWord? width (Text.trim raw.toList) = some x) : ¬NegatedBeyondInt raw := by
  rintro ⟨n, ⟨mark, digits, hm, hcs, -⟩, -⟩
  rw [hcs, Text.signedWord?, integer?_eq_none hm] at h
  cases h

theorem negatedBeyondInt_iff {raw : String} {negative : Bool} {n : Nat}
    (h : Hexadecimal (Text.trim raw.toList) negative n) :
    NegatedBeyondInt raw ↔ negative = true ∧ wordCount 31 < n := by
  constructor
  · rintro ⟨m, hm, hlt⟩
    obtain ⟨rfl, rfl⟩ := hexadecimal_inj hm h
    exact ⟨rfl, hlt⟩
  · rintro ⟨rfl, hlt⟩
    exact ⟨n, h, hlt⟩

end Literal

namespace ConstantKind

open Literal

theorem coerce_of_isInt {v : Int64} (h : IsInt v) : int.coerce v = v := by
  have hw : wordCount 32 = wordCount 31 * 2 := rfl
  obtain ⟨hlow, hhigh⟩ := h
  apply Int64.toInt_inj.1
  rw [toInt_coerce_int]
  split
  · exact Int.bmod_eq_of_le_mul_two (by omega) (by omega)
  · rfl

/-- Narrowing a signed number of 32 bits wraps it, unless it is too small. -/
theorem coerce_eq_iff {negative : Bool} {n : Nat} (hn : n < wordCount 32) {w v : Int64}
    (hw : w.toInt = signed negative n) (hv : v.toInt = (signed negative n).bmod (wordCount 32)) :
    int.coerce w = v ↔ ¬(negative = true ∧ wordCount 31 < n) := by
  have h32 : wordCount 32 = wordCount 31 * 2 := rfl
  rw [← Int64.toInt_inj, toInt_coerce_int, hw, hv]
  cases negative with
  | false =>
    have hr : 0 ≤ (n : Int) ∧ (n : Int) < wordCount 32 := by omega
    simp [signed, hr]
  | true =>
    simp only [signed, if_true, true_and, Nat.not_lt]
    -- only zero is not negative here, and all else is left as it is
    by_cases hz : n = 0
    · simp [hz]
    · rw [if_neg (by omega)]
      constructor
      · intro h
        have hlow := Int.le_bmod (x := -(n : Int)) (wordCount_pos 32)
        omega
      · intro hle
        exact (Int.bmod_eq_of_le_mul_two (by omega) (by omega)).symm

end ConstantKind

namespace Literal

theorem abs_signed_lt (negative : Bool) {n count : Nat} (hn : n < count) :
    -(count : Int) < signed negative n ∧ signed negative n < count := by
  cases negative with
  | false =>
    rw [signed, if_neg Bool.false_ne_true]
    omega
  | true =>
    rw [signed, if_pos rfl]
    omega

/-- What is a literal of an `int` is also one of a `long`, and of the `int` that this `long` is narrowed to. -/
theorem long_of_int {raw : String} {v : Int64} (h : parse? raw .int = some v) :
    ∃ w, parse? raw .long = some w ∧ (ConstantKind.int.coerce w = v ↔ ¬NegatedBeyondInt raw) := by
  have h32 : wordCount 32 = 2 ^ 32 := rfl
  have h64 : wordCount 64 = 2 ^ 64 := rfl
  have hi : ofChars? 32 (Text.trim raw.toList) = some v.toInt := (parse?_eq_some rfl).1 h
  have hlong : ∀ w : Int64, ofChars? 64 (Text.trim raw.toList) = some w.toInt → parse? raw .long = some w :=
    fun w => (parse?_eq_some rfl).2
  obtain ⟨negative, n, hx, hn, hv⟩ | hs := ofChars?_eq_some.1 hi
  · obtain ⟨hlow, hhigh⟩ := abs_signed_lt negative hn
    have hw : (Int64.ofInt (signed negative n)).toInt = signed negative n :=
      Int64.toInt_ofInt_of_le (by omega) (by omega)
    have hb : (signed negative n).bmod (wordCount 64) = signed negative n :=
      Int.bmod_eq_of_le_mul_two (by omega) (by omega)
    refine ⟨.ofInt (signed negative n), hlong _ ?_, ?_⟩
    · apply ofChars?_eq_some.2
      exact .inl ⟨negative, n, hx, by omega, hw.trans hb.symm⟩
    · rw [negatedBeyondInt_iff hx]
      exact ConstantKind.coerce_eq_iff hn hw hv
  · refine ⟨v, hlong v (ofChars?_eq_some.2 (.inr ?_)), ?_⟩
    · have hint := (signedWord?_eq_some.1 hs).1
      exact signedWord?_eq_some.2 ⟨hint, Int64.le_toInt v, Int64.toInt_lt v⟩
    · have hcoerce := ConstantKind.coerce_of_isInt (isInt_of_parse? h)
      exact iff_of_true hcoerce (not_negatedBeyondInt_of_signedWord? hs)

end Literal

end ApiRules
