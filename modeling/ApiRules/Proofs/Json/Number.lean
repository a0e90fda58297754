import ApiRules.Json.Number
import ApiRules.Proofs.Text.Number
import Mathlib.Data.List.TakeWhile
import Mathlib.Order.Basic

/-!
Numbers are read as they are written.
-/
namespace ApiRules

theorem wordCount_le {a b : Nat} (h : a ≤ b) : wordCount a ≤ wordCount b :=
  Nat.pow_le_pow_right (by decide) h

namespace Json.Number

/-- The whole part has no idle zeros, and after the point there are only digits. -/
structure WellFormed (n : Number) : Prop where
  whole : isWhole n.whole = true
  fraction : ∀ c ∈ n.fraction, c.isDigit = true

theorem isDigit_of_isWhole {cs : List Char} (h : isWhole cs = true) : ∀ c ∈ cs, c.isDigit = true := by
  unfold isWhole at h
  split at h
  · cases h
  · simp
  · simp only [Bool.and_eq_true, List.all_eq_true] at h
    exact h.2

theorem ne_nil_of_isWhole {cs : List Char} (h : isWhole cs = true) : cs ≠ [] := by
  rintro rfl
  cases h

theorem head?_toDigits_ne_zero {n : Nat} (h : 0 < n) : (Nat.toDigits 10 n).head? ≠ some '0' := by
  induction n using Nat.strongRecOn with
  | _ n ih =>
    rw [Nat.toDigits_eq_if (by decide)]
    split
    · simpa [Nat.digitChar_eq_zero] using h.ne'
    · have hn := ih (n / 10) (by omega) (by omega)
      cases hcs : Nat.toDigits 10 (n / 10) with
      | nil => exact absurd hcs Nat.toDigits_ne_nil
      | cons c cs =>
        rw [hcs] at hn
        exact hn

theorem isWhole_toDigits (n : Nat) : isWhole (Nat.toDigits 10 n) = true := by
  obtain rfl | hn := Nat.eq_zero_or_pos n
  · rfl
  · have hhead := head?_toDigits_ne_zero hn
    have hall : ∀ c ∈ Nat.toDigits 10 n, c.isDigit = true := fun c => Text.isDigit_of_mem_toDigits
    cases hcs : Nat.toDigits 10 n with
    | nil => exact absurd hcs Nat.toDigits_ne_nil
    | cons c cs =>
      rw [hcs] at hhead hall
      have hc : c ≠ '0' := by simpa using hhead
      simpa [isWhole, hc] using hall

theorem wellFormed_ofNat (n : Nat) : (ofNat n).WellFormed := ⟨isWhole_toDigits n, by simp [ofNat]⟩

theorem toNat?_ofNat (n : Nat) : (ofNat n).toNat? = some n := by
  simp [toNat?, ofNat, Nat.ofDigitChars_ten_toDigits]

theorem exponent?_toDigits (n : Nat) : exponent? (Nat.toDigits 10 n) = some (n : Int) := by
  have hall : ∀ c ∈ Nat.toDigits 10 n, c.isDigit = true := fun c => Text.isDigit_of_mem_toDigits
  have hd := Text.decimal?_toDigits n
  unfold exponent?
  split
  · rename_i heq
    simp [heq] at hall
  · rename_i heq
    simp [heq] at hall
  · rw [hd]
    rfl

theorem exponent?_toString (e : Int) : exponent? (toString e).toList = some e := by
  cases e with
  | ofNat n =>
    rw [Int.ofNat_eq_natCast, Text.toList_toString_natCast]
    exact exponent?_toDigits n
  | negSucc n =>
    rw [Text.toList_toString_negSucc, exponent?, Text.decimal?_toDigits]
    rfl

/-- What follows the fraction. -/
def exponentChars : Option Int → List Char
  | none => []
  | some e => 'e' :: (toString e).toList

theorem head?_exponentChars (e : Option Int) : ∀ c ∈ (exponentChars e).head?, c.isDigit = false := by
  cases e <;> simp [exponentChars]

theorem tail?_exponentChars (negative : Bool) (whole fraction : List Char) (e : Option Int) :
    tail? negative whole fraction (exponentChars e) = some ⟨negative, whole, fraction, e⟩ := by
  cases e with
  | none => rfl
  | some e =>
    rw [exponentChars, tail?, if_pos (Or.inl rfl), exponent?_toString]
    rfl

section
variable {ds rest : List Char} (hd : ∀ c ∈ ds, c.isDigit = true) (hr : ∀ c ∈ rest.head?, c.isDigit = false)
include hd hr

theorem takeWhile_digits : (ds ++ rest).takeWhile Char.isDigit = ds := by
  rw [List.takeWhile_append_of_pos hd]
  cases rest with
  | nil => simp
  | cons c cs => simp [hr c rfl]

theorem dropWhile_digits : (ds ++ rest).dropWhile Char.isDigit = rest := by
  rw [List.dropWhile_append_of_pos hd]
  cases rest with
  | nil => rfl
  | cons c cs => simp [hr c rfl]

end

section
variable {whole : List Char} (hw : isWhole whole = true)
include hw

theorem unsigned?_of_whole (negative : Bool) (e : Option Int) :
    unsigned? negative (whole ++ exponentChars e) = some ⟨negative, whole, [], e⟩ := by
  have hd := isDigit_of_isWhole hw
  have he := head?_exponentChars e
  simp only [unsigned?, takeWhile_digits hd he, dropWhile_digits hd he, hw, if_true]
  cases e with
  | none => rfl
  | some e => exact tail?_exponentChars negative whole [] (some e)

theorem unsigned?_of_fraction (negative : Bool) {fraction : List Char} (hne : fraction ≠ [])
    (hf : ∀ c ∈ fraction, c.isDigit = true) (e : Option Int) :
    unsigned? negative (whole ++ '.' :: (fraction ++ exponentChars e)) =
      some ⟨negative, whole, fraction, e⟩ := by
  have hd := isDigit_of_isWhole hw
  have he := head?_exponentChars e
  have hpoint : ∀ c ∈ ('.' :: (fraction ++ exponentChars e)).head?, c.isDigit = false := by simp
  simp only [unsigned?, takeWhile_digits hd hpoint, dropWhile_digits hd hpoint, hw, if_true,
    takeWhile_digits hf he, dropWhile_digits hf he, hne, if_false, tail?_exponentChars]

end

theorem ofChars?_unsigned (whole rest : List Char) (h : isWhole whole = true) :
    ofChars? (whole ++ rest) = unsigned? false (whole ++ rest) := by
  obtain ⟨c, cs, rfl⟩ := List.exists_cons_of_ne_nil (ne_nil_of_isWhole h)
  have hc : c ≠ '-' := by
    rintro rfl
    exact absurd (isDigit_of_isWhole h '-' List.mem_cons_self) (by decide)
  rw [List.cons_append]
  unfold ofChars?
  split
  · rename_i heq
    exact absurd (List.cons.inj heq).1 hc
  · rfl

/-- The text after the sign. -/
def unsignedChars (n : Number) : List Char :=
  n.whole ++ ((if n.fraction = [] then [] else '.' :: n.fraction) ++ exponentChars n.exponent)

theorem chars_eq (n : Number) : n.chars = (if n.negative then ['-'] else []) ++ n.unsignedChars := by
  unfold chars unsignedChars
  simp only [List.append_assoc]
  cases n.exponent <;> rfl

theorem unsigned?_unsignedChars {n : Number} (h : n.WellFormed) :
    unsigned? n.negative n.unsignedChars = some n := by
  unfold unsignedChars
  split
  · rename_i hf
    rw [List.nil_append, unsigned?_of_whole h.whole, ← hf]
  · rename_i hf
    rw [List.cons_append, unsigned?_of_fraction h.whole n.negative hf h.fraction]

/-- A number is read as it is written. -/
theorem ofChars?_chars {n : Number} (h : n.WellFormed) : ofChars? n.chars = some n := by
  have hu := unsigned?_unsignedChars h
  rw [chars_eq]
  cases hn : n.negative with
  | true =>
    rw [hn] at hu
    exact hu
  | false =>
    rw [hn] at hu
    exact (ofChars?_unsigned n.whole _ h.whole).trans hu

theorem of_mem_exponentChars {e : Option Int} {c : Char} (h : c ∈ exponentChars e) :
    c.isDigit = true ∨ c = '-' ∨ c = 'e' := by
  cases e with
  | none => cases h
  | some e =>
    obtain rfl | h := List.mem_cons.1 h
    · exact .inr (.inr rfl)
    · exact (Text.of_mem_toString h).imp_right .inl

theorem of_mem_chars {n : Number} (h : n.WellFormed) {c : Char} (hc : c ∈ n.chars) :
    c.isDigit = true ∨ c = '-' ∨ c = '.' ∨ c = 'e' := by
  rw [chars_eq, unsignedChars] at hc
  simp only [List.mem_append] at hc
  obtain hc | hc | hc | hc := hc
  · split at hc
    · exact .inr (.inl (List.mem_singleton.1 hc))
    · cases hc
  · exact .inl (isDigit_of_isWhole h.whole c hc)
  · split at hc
    · cases hc
    · obtain rfl | hc := List.mem_cons.1 hc
      · exact .inr (.inr (.inl rfl))
      · exact .inl (h.fraction c hc)
  · exact (of_mem_exponentChars hc).imp_right (.imp_right .inr)

theorem exists_chars_eq_cons {n : Number} (h : n.WellFormed) :
    ∃ c cs, n.chars = c :: cs ∧ (c.isDigit = true ∨ c = '-') := by
  rw [chars_eq]
  cases n.negative with
  | true => exact ⟨'-', n.unsignedChars, rfl, .inr rfl⟩
  | false =>
    obtain ⟨c, cs, hcs⟩ := List.exists_cons_of_ne_nil (ne_nil_of_isWhole h.whole)
    have hc := isDigit_of_isWhole h.whole c (hcs ▸ List.mem_cons_self)
    rw [unsignedChars, hcs]
    exact ⟨c, _, rfl, .inl hc⟩

theorem le_ofDigitChars (cs : List Char) (m : Nat) : m ≤ Nat.ofDigitChars 10 cs m := by
  have hm : m ≤ 10 ^ cs.length * m := Nat.le_mul_of_pos_left m (Nat.pow_pos (by decide))
  rw [Nat.ofDigitChars_eq_ofDigitChars_zero]
  exact hm.trans (Nat.le_add_right _ _)

/-- Of digits that fit a word none is left out. -/
theorem foldl_significand {step : Nat × Int × Bool → Char → Nat × Int × Bool}
    (hstep : ∀ m c, 10 * m + (c.toNat - '0'.toNat) < wordCount 64 →
      step (m, 0, false) c = (10 * m + (c.toNat - '0'.toNat), 0, false)) {cs : List Char} {m : Nat}
    (h : Nat.ofDigitChars 10 cs m < wordCount 64) :
    cs.foldl step (m, 0, false) = (Nat.ofDigitChars 10 cs m, 0, false) := by
  induction cs generalizing m with
  | nil => rfl
  | cons c cs ih =>
    rw [Nat.ofDigitChars_cons] at h
    have hm := (le_ofDigitChars cs _).trans_lt h
    rw [List.foldl_cons, hstep m c hm, ih h, Nat.ofDigitChars_cons]

theorem significand_ofNat {n : Nat} (h : n < wordCount 64) : (ofNat n).significand = (n, 0) := by
  have hd : Nat.ofDigitChars 10 (Nat.toDigits 10 n) 0 < wordCount 64 := by
    rwa [Nat.ofDigitChars_ten_toDigits]
  simp only [significand, ofNat, List.foldl_nil]
  rw [foldl_significand (fun m c hm => by
    simp only [hm, if_true, Bool.false_eq_true, if_false]) hd, Nat.ofDigitChars_ten_toDigits]

/-- Whole numbers that a double holds are not rounded. -/
theorem roundToDouble_of_lt {n : Nat} (h : n < wordCount 53) : roundToDouble n = n := by
  have hlog : n.log2 - 52 = 0 := by
    obtain rfl | hn := Nat.eq_zero_or_pos n
    · rfl
    · have hlt : n.log2 < 53 := (Nat.log2_lt hn.ne').2 h
      omega
  simp [roundToDouble, hlog, wordCount_zero, Nat.mod_one]

theorem overflows_ofNat {n : Nat} (h : n < wordCount 53) : (ofNat n).overflows = false := by
  have hs : (ofNat n).significand = (n, 0) := significand_ofNat (h.trans (by decide))
  have hone : roundToDouble (Nat.pow 10 (Int.toNat (0 + 0))) = 1 := roundToDouble_of_lt (by decide)
  have hlarge : ¬wordCount 1024 ≤ n := Nat.not_le.2 (h.trans_le (wordCount_le (by decide)))
  have he : (ofNat n).exponent = none := rfl
  simp only [overflows, hs, he, Option.getD_none, hone, roundToDouble_of_lt h, Nat.mul_one, hlarge,
    decide_false]
  split
  · rfl
  · split
    · rename_i hbig
      exact absurd hbig (by decide)
    · rfl

end Json.Number

end ApiRules
