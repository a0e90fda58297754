import ApiRules.Constant.Literal
import Mathlib.Data.List.Basic

/-!
What literals state. A literal is the hexadecimal number of a word, with or without a minus sign and taken
modulo the words, or the decimal number of a signed word.
-/
namespace ApiRules

theorem ConstantKind.lt_of_width? {kind : ConstantKind} {width : Nat} (hk : kind.width? = some (width + 1)) :
    width < 64 := by
  cases kind with
  | int | long =>
    obtain rfl := Nat.succ.inj (Option.some.inj hk)
    decide
  | text => cases hk

namespace Literal

def sign (negative : Bool) : List Char := if negative then ['-'] else []

/-- The number with its sign. -/
def signed (negative : Bool) (n : Nat) : Int := if negative then -(n : Int) else n

/-- A hexadecimal literal of the number, with or without a minus sign. -/
def Hexadecimal (cs : List Char) (negative : Bool) (n : Nat) : Prop :=
  ∃ mark digits, (mark = 'x' ∨ mark = 'X') ∧ cs = sign negative ++ '0' :: mark :: digits ∧
    Text.hex? digits = some n

theorem hexDigits?_eq_some {cs digits : List Char} :
    hexDigits? cs = some digits ↔ ∃ mark, (mark = 'x' ∨ mark = 'X') ∧ cs = '0' :: mark :: digits := by
  constructor
  · intro h
    unfold hexDigits? at h
    split at h
    · obtain rfl := Option.some.inj h
      exact ⟨'x', .inl rfl, rfl⟩
    · obtain rfl := Option.some.inj h
      exact ⟨'X', .inr rfl, rfl⟩
    · cases h
  · rintro ⟨mark, rfl | rfl, rfl⟩ <;> rfl

theorem word?_eq_some {width : Nat} {negative : Bool} {digits : List Char} {x : Int} :
    word? width negative digits = some x ↔
      ∃ n, Text.hex? digits = some n ∧ n < wordCount width ∧
        x = (signed negative n).bmod (wordCount width) := by
  cases hn : Text.hex? digits with
  | none => simp [word?, hn]
  | some n =>
    by_cases hlt : n < wordCount width
    · simp [word?, hn, hlt, signed, Option.filter_some, eq_comm]
    · simp [word?, hn, hlt, Option.filter_some]

/-- The mark of a hexadecimal literal is no decimal digit. -/
theorem integer?_eq_none {mark : Char} (hm : mark = 'x' ∨ mark = 'X') (negative : Bool)
    (digits : List Char) : Text.integer? (sign negative ++ '0' :: mark :: digits) = none := by
  have hmark : mark.isDigit = false := by obtain rfl | rfl := hm <;> rfl
  have hd : Text.decimal? ('0' :: mark :: digits) = none := by simp [Text.decimal?, hmark]
  cases negative <;> simp [sign, Text.integer?, hd]

theorem exists_sign (cs : List Char) :
    ∃ negative ds, cs = sign negative ++ ds ∧ (negative = true ∨ ∀ rest, ds ≠ '-' :: rest) := by
  by_cases h : ∃ rest, cs = '-' :: rest
  · obtain ⟨rest, rfl⟩ := h
    exact ⟨true, rest, rfl, .inl rfl⟩
  · exact ⟨false, cs, rfl, .inr (not_exists.1 h)⟩

theorem ofChars?_signed {width : Nat} {negative : Bool} {ds : List Char}
    (h : negative = true ∨ ∀ rest, ds ≠ '-' :: rest) :
    ofChars? width (sign negative ++ ds) = match hexDigits? ds with
      | some digits => word? width negative digits
      | none => Text.signedWord? width (sign negative ++ ds) := by
  cases negative with
  | true => rfl
  | false =>
    have hne := h.resolve_left Bool.false_ne_true
    cases ds with
    | nil => rfl
    | cons c ds =>
      have hc : c ≠ '-' := fun hc => hne ds (hc ▸ rfl)
      unfold ofChars?
      split
      rename_i hcs
      split at hcs
      · rename_i heq
        exact absurd (List.cons.inj heq).1 hc
      · obtain ⟨rfl, rfl⟩ := Prod.mk.inj hcs
        rfl

/-- What a literal without white space around it states. -/
theorem ofChars?_eq_some {width : Nat} {cs : List Char} {x : Int} :
    ofChars? width cs = some x ↔
      (∃ negative n, Hexadecimal cs negative n ∧ n < wordCount width ∧
        x = (signed negative n).bmod (wordCount width)) ∨ Text.signedWord? width cs = some x := by
  constructor
  · obtain ⟨negative, ds, rfl, hs⟩ := exists_sign cs
    intro h
    rw [ofChars?_signed hs] at h
    cases hd : hexDigits? ds with
    | none =>
      rw [hd] at h
      exact .inr h
    | some digits =>
      rw [hd] at h
      obtain ⟨n, hn, hlt, rfl⟩ := word?_eq_some.1 h
      obtain ⟨mark, hm, rfl⟩ := hexDigits?_eq_some.1 hd
      exact .inl ⟨negative, n, ⟨mark, digits, hm, rfl, hn⟩, hlt, rfl⟩
  · rintro (⟨negative, n, ⟨mark, digits, hm, rfl, hn⟩, hlt, rfl⟩ | h)
    · have hs : ∀ rest, '0' :: mark :: digits ≠ '-' :: rest := fun rest he =>
        absurd (List.cons.inj he).1 (by decide)
      rw [ofChars?_signed (.inr hs), hexDigits?_eq_some.2 ⟨mark, hm, rfl⟩]
      exact word?_eq_some.2 ⟨n, hn, hlt, rfl⟩
    · obtain ⟨negative, ds, rfl, hs⟩ := exists_sign cs
      rw [ofChars?_signed hs]
      cases hd : hexDigits? ds with
      | none => exact h
      | some digits =>
        obtain ⟨mark, hm, rfl⟩ := hexDigits?_eq_some.1 hd
        rw [Text.signedWord?, integer?_eq_none hm] at h
        cases h

theorem signedWord?_eq_some {width : Nat} {cs : List Char} {x : Int} :
    Text.signedWord? width cs = some x ↔ Text.integer? cs = some x ∧
      -(wordCount (width - 1) : Int) ≤ x ∧ x < wordCount (width - 1) := by
  simp [Text.signedWord?, Option.filter_eq_some_iff]

theorem bounds_of_ofChars? {width : Nat} {cs : List Char} {x : Int}
    (h : ofChars? (width + 1) cs = some x) : -(wordCount width : Int) ≤ x ∧ x < wordCount width := by
  obtain ⟨negative, n, -, -, rfl⟩ | h := ofChars?_eq_some.1 h
  · have hw := wordCount_succ width
    have hp := wordCount_pos (width + 1)
    have hlow := Int.le_bmod (x := signed negative n) hp
    have hhigh := Int.bmod_lt (x := signed negative n) hp
    omega
  · exact (signedWord?_eq_some.1 h).2

theorem toInt_ofInt_of_ofChars? {width : Nat} (hw : width < 64) {cs : List Char} {x : Int}
    (h : ofChars? (width + 1) cs = some x) : (Int64.ofInt x).toInt = x := by
  have hb := bounds_of_ofChars? h
  have hle : (wordCount width : Int) ≤ 2 ^ 63 := by
    exact_mod_cast Nat.pow_le_pow_right (by decide : 0 < 2) (Nat.le_of_lt_succ hw)
  exact Int64.toInt_ofInt_of_le (by omega) (by omega)

/-- What a literal of a kind with words of `width + 1` bits states, white space around it apart. -/
theorem parse?_eq_some {kind : ConstantKind} {width : Nat} (hk : kind.width? = some (width + 1)) {raw : String}
    {v : Int64} : parse? raw kind = some v ↔ ofChars? (width + 1) (Text.trim raw.toList) = some v.toInt := by
  have hw := ConstantKind.lt_of_width? hk
  simp only [parse?, hk, Option.bind_some, Option.map_eq_some_iff]
  constructor
  · rintro ⟨x, hx, rfl⟩
    rwa [toInt_ofInt_of_ofChars? hw hx]
  · intro h
    exact ⟨v.toInt, h, Int64.ofInt_toInt v⟩

end Literal

/-- The integer is that of a signed word of 32 bits. -/
def IsInt (n : Int64) : Prop := -(wordCount 31 : Int) ≤ n.toInt ∧ n.toInt < wordCount 31

theorem isInt_of_parse? {raw : String} {v : Int64} (h : Literal.parse? raw .int = some v) : IsInt v :=
  Literal.bounds_of_ofChars? ((Literal.parse?_eq_some rfl).1 h)

namespace ConstantKind

theorem toInt_coerce_int (n : Int64) :
    (int.coerce n).toInt =
      if 0 ≤ n.toInt ∧ n.toInt < wordCount 32 then n.toInt.bmod (wordCount 32) else n.toInt := by
  have hw : wordCount 32 = 4294967296 := rfl
  by_cases h : 0 ≤ n.toInt ∧ n.toInt < wordCount 32
  · have hlow := Int.le_bmod (x := n.toInt) (wordCount_pos 32)
    have hhigh := Int.bmod_lt (x := n.toInt) (wordCount_pos 32)
    rw [coerce, if_pos ⟨rfl, h⟩, if_pos h]
    exact Int64.toInt_ofInt_of_le (by omega) (by omega)
  · rw [coerce, if_neg fun hc => h hc.2, if_neg h]

theorem coerce_long (n : Int64) : long.coerce n = n := if_neg fun h => by cases h.1

/-- What has the bits of an `int`, read with or without its sign, becomes that `int`. -/
theorem isInt_coerce_int {n : Int64} (hlow : -(wordCount 31 : Int) ≤ n.toInt) (hhigh : n.toInt < wordCount 32) :
    IsInt (int.coerce n) := by
  have hw : wordCount 32 = wordCount 31 * 2 := rfl
  rw [IsInt, toInt_coerce_int]
  split
  · have hl := Int.le_bmod (x := n.toInt) (wordCount_pos 32)
    have hh := Int.bmod_lt (x := n.toInt) (wordCount_pos 32)
    omega
  · omega

end ConstantKind

end ApiRules
