import ApiRules.Proofs.Archive.Bytes
import Mathlib.Data.String.Basic

/-!
The order of texts. They stand in the order of their bytes, for a character with a lesser code has lesser bytes.
-/
namespace ApiRules.Archive

/-- A code in bytes. The first one has a mark and what the others leave, each of the `count` others six bits. -/
def places (mark : Nat) : (count : Nat) → Nat → Bytes
  | 0, n => [UInt8.ofNat (n + mark)]
  | count + 1, n => places mark count (n / 64) ++ [UInt8.ofNat (n % 64 + 128)]

/-- How many bytes follow the first byte of a character with this code. -/
def following (n : Nat) : Nat := if n ≤ 0x7f then 0 else if n ≤ 0x7ff then 1 else if n ≤ 0xffff then 2 else 3

/-- The mark of a first byte that so many bytes follow. -/
def leadingMark : Nat → Nat
  | 0 => 0
  | 1 => 0xc0
  | 2 => 0xe0
  | _ => 0xf0

/-- The first byte of a character with this code. -/
def leading (n : Nat) : Nat := n / 64 ^ following n + leadingMark (following n)

theorem leading_lt_256 {n : Nat} (hn : n < 0x110000) : leading n < 256 := by
  unfold leading following
  split_ifs <;> simp only [leadingMark] <;> omega

/-- What is longer has a greater first byte. -/
theorem leading_lt_leading {m n : Nat} (h : m < n) (hn : n < 0x110000) (hne : following m ≠ following n) :
    leading m < leading n := by
  unfold following at hne
  unfold leading following
  split_ifs at hne ⊢ <;> simp only [leadingMark] <;> omega

theorem ofNat_cons_lt {m n : Nat} (hn : n < 256) (h : m < n) (bs cs : Bytes) :
    UInt8.ofNat m :: bs < UInt8.ofNat n :: cs := by
  apply List.cons_lt_cons_iff.2
  left
  rw [UInt8.lt_iff_toNat_lt, UInt8.toNat_ofNat', UInt8.toNat_ofNat']
  omega

theorem exists_places_eq_cons (mark count n : Nat) :
    ∃ bs, places mark count n = UInt8.ofNat (n / 64 ^ count + mark) :: bs := by
  induction count generalizing n with
  | zero => exact ⟨[], by rw [places, Nat.pow_zero, Nat.div_one]⟩
  | succ count ih =>
    obtain ⟨bs, hbs⟩ := ih (n / 64)
    refine ⟨bs ++ [UInt8.ofNat (n % 64 + 128)], ?_⟩
    rw [places, hbs, Nat.div_div_eq_div_mul, ← Nat.pow_succ', List.cons_append]

/-- Of codes in as many bytes the lesser one has the lesser bytes, and they differ before they end. -/
theorem places_append_lt {mark count m n : Nat} (hn : n / 64 ^ count + mark < 256) (h : m < n) (bs cs : Bytes) :
    places mark count m ++ bs < places mark count n ++ cs := by
  induction count generalizing m n bs cs with
  | zero =>
    rw [Nat.pow_zero, Nat.div_one] at hn
    exact ofNat_cons_lt hn (Nat.add_lt_add_right h mark) bs cs
  | succ count ih =>
    rw [places, places, List.append_assoc, List.append_assoc]
    obtain hlt | ⟨heq, hlt⟩ : m / 64 < n / 64 ∨ m / 64 = n / 64 ∧ m % 64 < n % 64 := by omega
    · rw [Nat.pow_succ', ← Nat.div_div_eq_div_mul] at hn
      exact ih hn hlt _ _
    · rw [heq]
      exact List.append_left_lt (ofNat_cons_lt (by omega) (by omega) bs cs)

theorem toNat_char_lt (c : Char) : c.toNat < 0x110000 := by
  have hvalid := c.valid
  simp only [UInt32.isValidChar, Nat.isValidChar] at hvalid
  change c.val.toNat < 0x110000
  omega

theorem utf8EncodeChar_eq_places (c : Char) : String.utf8EncodeChar c =
    places (leadingMark (following c.toNat)) (following c.toNat) c.toNat := by
  have hc := toNat_char_lt c
  have hv : c.toNat = c.val.toNat := rfl
  rw [hv] at hc ⊢
  simp only [String.utf8EncodeChar, following]
  split_ifs
  · rfl
  · simp only [leadingMark, places, List.cons_append, List.nil_append]
    rw [Nat.mod_eq_of_lt (by omega)]
  · simp only [leadingMark, places, List.cons_append, List.nil_append, Nat.div_div_eq_div_mul]
    rw [Nat.mod_eq_of_lt (by omega)]
  · simp only [leadingMark, places, List.cons_append, List.nil_append, Nat.div_div_eq_div_mul]
    rw [Nat.mod_eq_of_lt (a := c.val.toNat / 262144) (by omega)]

theorem exists_utf8EncodeChar_eq_cons (c : Char) :
    ∃ bs, String.utf8EncodeChar c = UInt8.ofNat (leading c.toNat) :: bs := by
  rw [utf8EncodeChar_eq_places]
  exact exists_places_eq_cons _ _ _

theorem utf8EncodeChar_append_lt {c d : Char} (h : c < d) (bs cs : Bytes) :
    String.utf8EncodeChar c ++ bs < String.utf8EncodeChar d ++ cs := by
  have hlt : c.toNat < d.toNat := h
  have hd := toNat_char_lt d
  by_cases hsame : following c.toNat = following d.toNat
  · rw [utf8EncodeChar_eq_places, utf8EncodeChar_eq_places, hsame]
    exact places_append_lt (leading_lt_256 hd) hlt bs cs
  · obtain ⟨bs', hbs⟩ := exists_utf8EncodeChar_eq_cons c
    obtain ⟨cs', hcs⟩ := exists_utf8EncodeChar_eq_cons d
    rw [hbs, hcs]
    exact ofNat_cons_lt (leading_lt_256 hd) (leading_lt_leading hlt hd hsame) _ _

theorem flatMap_utf8EncodeChar_lt {s t : List Char} (h : s < t) :
    s.flatMap String.utf8EncodeChar < t.flatMap String.utf8EncodeChar := by
  induction s generalizing t with
  | nil =>
    cases t with
    | nil => exact absurd h (List.lt_irrefl _)
    | cons d t =>
      obtain ⟨bs, hbs⟩ := exists_utf8EncodeChar_eq_cons d
      rw [List.flatMap_cons, hbs]
      exact List.nil_lt_cons _ _
  | cons c s ih =>
    cases t with
    | nil => exact absurd h (List.not_lt_nil _)
    | cons d t =>
      rw [List.flatMap_cons, List.flatMap_cons]
      obtain hlt | ⟨rfl, hlt⟩ := List.cons_lt_cons_iff.1 h
      · exact utf8EncodeChar_append_lt hlt _ _
      · exact List.append_left_lt (ih hlt)

/-- Texts stand in the order of their bytes. -/
theorem ofText_lt_iff {s t : String} : ofText s < ofText t ↔ s < t := by
  have hmono : ∀ {s t : String}, s < t → ofText s < ofText t := by
    intro s t h
    rw [ofText_eq_flatMap, ofText_eq_flatMap]
    exact flatMap_utf8EncodeChar_lt (String.lt_iff_toList_lt.1 h)
  constructor
  · intro h
    obtain hlt | rfl | hgt := lt_trichotomy s t
    · exact hlt
    · exact absurd h (List.lt_irrefl _)
    · exact absurd h (List.lt_asymm (hmono hgt))
  · exact hmono

end ApiRules.Archive
