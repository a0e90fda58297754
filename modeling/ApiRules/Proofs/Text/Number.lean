import ApiRules.Proofs.Text.Cut
import ApiRules.Text.Number
import Mathlib.Data.List.Forall2
import Mathlib.Data.Nat.Digits.Defs

/-!
Numerals. A run of digits is read as the number that it is in its base, greatest place first, and the text of a
number is read as that number.
-/
namespace ApiRules.Text

/-- The character is the digit for this number; letters are digits in either case. -/
def IsDigit (base : Nat) (c : Char) (d : Nat) : Prop :=
  d < base ∧ (c = Nat.digitChar d ∨ c = (Nat.digitChar d).toUpper)

/-- Digits in this base, at least one, and the number that they are. -/
def Numeral (base : Nat) (cs : List Char) (n : Nat) : Prop :=
  ∃ ds, ds ≠ [] ∧ List.Forall₂ (IsDigit base) cs ds ∧ n = Nat.ofDigits base ds.reverse

theorem eq_ofNat_of_toNat {c : Char} {n : Nat} (h : c.toNat = n) : c = Char.ofNat n := by
  rw [← h, Char.ofNat_toNat]

theorem digitChar_eq_ofNat : ∀ d < 16, (d < 10 → Nat.digitChar d = Char.ofNat (d + 48)) ∧
    (10 ≤ d → Nat.digitChar d = Char.ofNat (d + 87) ∧ (Nat.digitChar d).toUpper = Char.ofNat (d + 55)) := by
  decide

theorem hexDigit?_eq_some {c : Char} {d : Nat} : hexDigit? c = some d ↔ IsDigit 16 c d := by
  constructor
  · intro h
    have hle : ∀ a b : Char, a ≤ b ↔ a.toNat ≤ b.toNat := fun _ _ => Iff.rfl
    unfold hexDigit? at h
    simp only [hle, Char.reduceToNat] at h
    split_ifs at h
    all_goals have hd := Option.some.inj h
    · have hc : c.toNat = d + 48 := by omega
      refine ⟨by omega, .inl ?_⟩
      rw [(digitChar_eq_ofNat d (by omega)).1 (by omega)]
      exact eq_ofNat_of_toNat hc
    · have hc : c.toNat = d + 87 := by omega
      refine ⟨by omega, .inl ?_⟩
      rw [((digitChar_eq_ofNat d (by omega)).2 (by omega)).1]
      exact eq_ofNat_of_toNat hc
    · have hc : c.toNat = d + 55 := by omega
      refine ⟨by omega, .inr ?_⟩
      rw [((digitChar_eq_ofNat d (by omega)).2 (by omega)).2]
      exact eq_ofNat_of_toNat hc
  · have hall : ∀ d < 16, hexDigit? (Nat.digitChar d) = some d ∧ hexDigit? (Nat.digitChar d).toUpper = some d := by
      decide
    rintro ⟨hd, rfl | rfl⟩
    · exact (hall d hd).1
    · exact (hall d hd).2

theorem isDigit_ten_iff {c : Char} {d : Nat} :
    IsDigit 10 c d ↔ c.isDigit = true ∧ d = c.toNat - '0'.toNat := by
  constructor
  · have hall : ∀ d < 10, (Nat.digitChar d).toUpper = Nat.digitChar d ∧ (Nat.digitChar d).isDigit = true ∧
        d = (Nat.digitChar d).toNat - '0'.toNat := by decide
    rintro ⟨hd, h⟩
    obtain ⟨hupper, hdigit⟩ := hall d hd
    obtain rfl : c = Nat.digitChar d := h.elim id (·.trans hupper)
    exact hdigit
  · rintro ⟨hc, hd⟩
    have hle := Char.isDigit_iff_toNat.1 hc
    simp only [Char.reduceToNat] at hle hd
    refine ⟨by omega, .inl ?_⟩
    rw [(digitChar_eq_ofNat d (by omega)).1 (by omega)]
    exact eq_ofNat_of_toNat (by omega)

theorem foldl_digits (base : Nat) (ds : List Nat) :
    ds.foldl (fun n d => base * n + d) 0 = Nat.ofDigits base ds.reverse := by
  rw [Nat.ofDigits_eq_foldr, List.foldr_reverse]
  simp only [Nat.cast_id, Nat.add_comm]

theorem foldlM_digits {digit? : Char → Option Nat} {base m n : Nat} {cs : List Char} :
    cs.foldlM (fun n c => (digit? c).map (base * n + ·)) m = some n ↔
      ∃ ds, List.Forall₂ (fun c d => digit? c = some d) cs ds ∧ n = ds.foldl (fun n d => base * n + d) m := by
  induction cs generalizing m with
  | nil =>
    simp [eq_comm]
  | cons c cs ih =>
    simp only [List.foldlM_cons, Option.bind_eq_bind, Option.bind_eq_some_iff, Option.map_eq_some_iff, ih,
      List.forall₂_cons_left_iff]
    constructor
    · rintro ⟨_, ⟨d, hd, rfl⟩, ds, hds, rfl⟩
      exact ⟨d :: ds, ⟨d, ds, hd, hds, rfl⟩, rfl⟩
    · rintro ⟨_, ⟨d, ds, hd, hds, rfl⟩, rfl⟩
      exact ⟨_, ⟨d, hd, rfl⟩, ds, hds, rfl⟩

theorem ne_nil_iff_of_forall₂ {α β : Type} {r : α → β → Prop} {l : List α} {bs : List β} (h : List.Forall₂ r l bs) :
    l ≠ [] ↔ bs ≠ [] := by
  cases h <;> simp

theorem hex?_eq_some {cs : List Char} {n : Nat} : hex? cs = some n ↔ Numeral 16 cs n := by
  simp only [hex?, Option.ite_none_left_eq_some, foldlM_digits, hexDigit?_eq_some, foldl_digits, Numeral]
  constructor
  · rintro ⟨hne, ds, hds, hn⟩
    exact ⟨ds, (ne_nil_iff_of_forall₂ hds).1 hne, hds, hn⟩
  · rintro ⟨ds, hne, hds, hn⟩
    exact ⟨(ne_nil_iff_of_forall₂ hds).2 hne, ds, hds, hn⟩

theorem forall₂_isDigit_ten {cs : List Char} {ds : List Nat} : List.Forall₂ (IsDigit 10) cs ds ↔
    cs.all Char.isDigit = true ∧ ds = cs.map fun c => c.toNat - '0'.toNat := by
  induction cs generalizing ds with
  | nil => simp
  | cons c cs ih =>
    simp only [List.forall₂_cons_left_iff, isDigit_ten_iff, ih, List.all_cons, Bool.and_eq_true, List.map_cons]
    constructor
    · rintro ⟨_, _, ⟨hc, rfl⟩, ⟨hcs, rfl⟩, rfl⟩
      exact ⟨⟨hc, hcs⟩, rfl⟩
    · rintro ⟨⟨hc, hcs⟩, rfl⟩
      exact ⟨_, _, ⟨hc, rfl⟩, ⟨hcs, rfl⟩, rfl⟩

theorem decimal?_eq_some {cs : List Char} {n : Nat} : decimal? cs = some n ↔ Numeral 10 cs n := by
  have hvalue : Nat.ofDigitChars 10 cs 0 = Nat.ofDigits 10 (cs.map fun c => c.toNat - '0'.toNat).reverse := by
    rw [← foldl_digits, List.foldl_map, Nat.ofDigitChars]
  rw [decimal?, Option.ite_none_right_eq_some, Option.some.injEq, hvalue]
  simp only [Numeral, forall₂_isDigit_ten]
  constructor
  · rintro ⟨⟨hne, hall⟩, rfl⟩
    exact ⟨_, mt List.map_eq_nil_iff.1 hne, ⟨hall, rfl⟩, rfl⟩
  · rintro ⟨_, hne, ⟨hall, rfl⟩, rfl⟩
    exact ⟨⟨mt List.map_eq_nil_iff.2 hne, hall⟩, rfl⟩

/-- A decimal numeral with a sign or without one, and the number that it is. -/
def SignedNumeral (cs : List Char) (x : Int) : Prop :=
  ∃ digits n, Numeral 10 digits n ∧ ((cs = digits ∨ cs = '+' :: digits) ∧ x = n ∨ cs = '-' :: digits ∧ x = -n)

theorem integer?_of_decimal? {cs : List Char} {n : Nat} (h : decimal? cs = some n) : integer? cs = some (n : Int) := by
  have hsign : ∀ c ds, c.isDigit = false → decimal? (c :: ds) = none := by
    intro c ds hc
    simp [decimal?, hc]
  unfold integer?
  split
  · rw [hsign _ _ rfl] at h
    cases h
  · rw [hsign _ _ rfl] at h
    cases h
  · rw [h]
    rfl

theorem integer?_eq_some {cs : List Char} {x : Int} : integer? cs = some x ↔ SignedNumeral cs x := by
  simp only [SignedNumeral, ← decimal?_eq_some]
  constructor
  · intro h
    unfold integer? at h
    split at h
    all_goals
      obtain ⟨n, hn, rfl⟩ := Option.map_eq_some_iff.1 h
    · exact ⟨_, n, hn, .inl ⟨.inr rfl, rfl⟩⟩
    · exact ⟨_, n, hn, .inr ⟨rfl, rfl⟩⟩
    · exact ⟨_, n, hn, .inl ⟨.inl rfl, rfl⟩⟩
  · rintro ⟨digits, n, hn, ⟨rfl | rfl, rfl⟩ | ⟨rfl, rfl⟩⟩
    · exact integer?_of_decimal? hn
    · rw [integer?, hn]
      rfl
    · rw [integer?, hn]
      rfl

/-! ### Numbers as texts -/

theorem isDigit_of_mem_toDigits {n : Nat} {c : Char} (h : c ∈ Nat.toDigits 10 n) : c.isDigit = true :=
  Nat.isDigit_of_mem_toDigits (by decide) (by decide) h

theorem decimal?_toDigits (n : Nat) : decimal? (Nat.toDigits 10 n) = some n := by
  have hall : (Nat.toDigits 10 n).all Char.isDigit = true :=
    List.all_eq_true.2 fun c hc => isDigit_of_mem_toDigits hc
  rw [decimal?, if_pos ⟨Nat.toDigits_ne_nil, hall⟩, Nat.ofDigitChars_ten_toDigits]

theorem toList_toString_natCast (n : Nat) : (toString (n : Int)).toList = Nat.toDigits 10 n := by
  simp [Int.toString_eq_repr, Int.repr_eq_if, Nat.repr_eq_ofList_toDigits]

theorem toList_toString_negSucc (n : Nat) :
    (toString (Int.negSucc n)).toList = '-' :: Nat.toDigits 10 (n + 1) := by
  simp [Int.toString_eq_repr, Int.repr, Nat.repr_eq_ofList_toDigits]

theorem of_mem_toString {x : Int} {c : Char} (h : c ∈ (toString x).toList) : c.isDigit = true ∨ c = '-' := by
  cases x with
  | ofNat n =>
    rw [Int.ofNat_eq_natCast, toList_toString_natCast] at h
    exact .inl (isDigit_of_mem_toDigits h)
  | negSucc n =>
    rw [toList_toString_negSucc] at h
    obtain rfl | h := List.mem_cons.1 h
    · exact .inr rfl
    · exact .inl (isDigit_of_mem_toDigits h)

theorem integer?_toString (x : Int) : integer? (toString x).toList = some x := by
  cases x with
  | ofNat n =>
    rw [Int.ofNat_eq_natCast, toList_toString_natCast]
    exact integer?_of_decimal? (decimal?_toDigits n)
  | negSucc n =>
    rw [toList_toString_negSucc, integer?, decimal?_toDigits]
    rfl

theorem isBlank_of_isDigit {c : Char} (h : c.isDigit = true) : isBlank c = false := by
  have hc := Char.isDigit_iff_toNat.1 h
  simp only [Char.reduceToNat] at hc
  have hall : ∀ n < 58, 48 ≤ n → isBlank (Char.ofNat n) = false := by decide
  rw [← Char.ofNat_toNat c]
  exact hall _ (by omega) hc.1

theorem trim_toString (x : Int) : trim (toString x).toList = (toString x).toList := by
  apply trim_eq_self
  intro c hc
  obtain hc | rfl := of_mem_toString hc
  · exact isBlank_of_isDigit hc
  · rfl

end ApiRules.Text
