/-!
Angle brackets in source types. How many of them are open is counted in a signed word of 32 bits.
-/
namespace ApiRules.Nesting

/-- The number of open brackets after a character. There is none where a bracket closes none that is open, nor where
one more bracket is open than there is a word for, since the number that comes after the greatest one is negative. -/
def next? (depth : Int32) (c : Char) : Option Int32 :=
  let next := if c = '<' then depth + 1 else if c = '>' then depth - 1 else depth
  if next < 0 then none else some next

/-- The greatest number of open brackets that there is a word for. -/
def max : Nat := 2147483647

section
variable {n : Nat}

theorem nonneg_ofNat (h : n ≤ max) : 0 ≤ Int32.ofNat n := by
  rw [Int32.le_iff_toInt_le, Int32.toInt_ofNat_of_lt (Nat.lt_succ_of_le h)]
  exact Int.natCast_nonneg n

theorem ofNat_eq_zero_iff (h : n ≤ max) : Int32.ofNat n = 0 ↔ n = 0 := by
  rw [← Int32.toInt_inj, Int32.toInt_ofNat_of_lt (Nat.lt_succ_of_le h)]
  exact Int.natCast_eq_zero

theorem nonneg_of_next? {depth next : Int32} {c : Char} (h : next? depth c = some next) : 0 ≤ next := by
  simp only [next?, Option.ite_none_left_eq_some, Option.some.injEq] at h
  obtain ⟨hle, rfl⟩ := h
  exact Int32.not_lt.1 hle

theorem next?_other {depth : Int32} {c : Char} (hd : 0 ≤ depth) (hl : c ≠ '<') (hr : c ≠ '>') :
    next? depth c = some depth := by
  rw [next?, if_neg hl, if_neg hr]
  exact if_neg (Int32.not_lt.2 hd)

theorem next?_opening (h : n < max) : next? (.ofNat n) '<' = some (.ofNat (n + 1)) := by
  have hnext : Int32.ofNat n + 1 = .ofNat (n + 1) := (Int32.ofNat_add n 1).symm
  rw [next?, if_pos rfl, hnext]
  exact if_neg (Int32.not_lt.2 (nonneg_ofNat h))

theorem next?_opening_max : next? (.ofNat max) '<' = none := by decide

theorem next?_closing (h : n < max) : next? (.ofNat (n + 1)) '>' = some (.ofNat n) := by
  have hnext : Int32.ofNat (n + 1) - 1 = .ofNat n := by
    rw [Int32.ofNat_add]
    exact Int32.add_sub_cancel (.ofNat n) 1
  have hne : '>' ≠ '<' := by decide
  rw [next?, if_neg hne, if_pos rfl, hnext]
  exact if_neg (Int32.not_lt.2 (nonneg_ofNat (Nat.le_of_lt h)))

theorem next?_closing_zero : next? (.ofNat 0) '>' = none := by decide

end

/-- What a character makes of a number of open brackets, if there may be `room` of them. -/
inductive Step (room : Nat) : Nat → Char → Nat → Prop where
  | opening {n : Nat} (h : n < room) : Step room n '<' (n + 1)
  | closing {n : Nat} : Step room (n + 1) '>' n
  | other {n : Nat} {c : Char} (hl : c ≠ '<') (hr : c ≠ '>') : Step room n c n

namespace Step

variable {room n m : Nat} {c : Char}

theorem le (h : Step room n c m) (hn : n ≤ room) : m ≤ room := by
  cases h with
  | opening h => exact h
  | closing => exact Nat.le_of_succ_le hn
  | other => exact hn

theorem eq_of_ne (h : Step room n c m) (hl : c ≠ '<') (hr : c ≠ '>') : m = n := by
  cases h with
  | opening => exact absurd rfl hl
  | closing => exact absurd rfl hr
  | other => rfl

theorem succ {limit : Nat} (h : Step room n c m) (hroom : room < limit) : Step limit (n + 1) c (m + 1) := by
  cases h with
  | opening h => exact .opening (Nat.lt_of_le_of_lt h hroom)
  | closing => exact .closing
  | other hl hr => exact .other hl hr

/-- What is open before a text and opened in it is what is open after it or closed in it. -/
theorem count (h : Step room n c m) (p : List Char) :
    n + (c :: p).count '<' + p.count '>' = m + p.count '<' + (c :: p).count '>' := by
  have hlr : '<' ≠ '>' := by decide
  cases h with
  | opening =>
    simp only [List.count_cons_self, List.count_cons_of_ne hlr]
    omega
  | closing =>
    simp only [List.count_cons_self, List.count_cons_of_ne hlr.symm]
    omega
  | other hl hr => simp only [List.count_cons_of_ne hl, List.count_cons_of_ne hr]

theorem exists_of_count (hle : [c].count '>' ≤ n + [c].count '<') (hroom : n + [c].count '<' ≤ room + [c].count '>') :
    ∃ m, Step room n c m := by
  by_cases hl : c = '<'
  · subst hl
    exact ⟨n + 1, .opening hroom⟩
  · by_cases hr : c = '>'
    · subst hr
      obtain ⟨m, rfl⟩ := Nat.exists_eq_succ_of_ne_zero (Nat.pos_iff_ne_zero.1 hle)
      exact ⟨m, .closing⟩
    · exact ⟨n, .other hl hr⟩

end Step

theorem next?_eq_some_iff {n : Nat} {c : Char} {next : Int32} (hn : n ≤ max) :
    next? (.ofNat n) c = some next ↔ ∃ m, Step max n c m ∧ next = .ofNat m := by
  constructor
  · intro h
    by_cases hl : c = '<'
    · subst hl
      obtain hlt | rfl := Nat.lt_or_eq_of_le hn
      · rw [next?_opening hlt] at h
        exact ⟨n + 1, .opening hlt, (Option.some.inj h).symm⟩
      · rw [next?_opening_max] at h
        cases h
    · by_cases hr : c = '>'
      · subst hr
        cases n with
        | zero =>
          rw [next?_closing_zero] at h
          cases h
        | succ m =>
          rw [next?_closing hn] at h
          exact ⟨m, .closing, (Option.some.inj h).symm⟩
      · rw [next?_other (nonneg_ofNat hn) hl hr] at h
        exact ⟨n, .other hl hr, (Option.some.inj h).symm⟩
  · rintro ⟨m, hm, rfl⟩
    cases hm with
    | opening h => exact next?_opening h
    | closing => exact next?_closing hn
    | other hl hr => exact next?_other (nonneg_ofNat hn) hl hr

end ApiRules.Nesting
