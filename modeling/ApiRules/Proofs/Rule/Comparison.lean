import ApiRules.Merge.State

/-!
How records compare. Two records are rivals if they have one key. Of two rivals that are API bounds the one
with the greater tightness allows fewer levels.
-/
namespace ApiRules

namespace Payload

/-- The tightness of a bound among the bounds of its kind; what is no bound has none. -/
def tightness : Payload → Nat
  | minApiLevel level => level.toNat
  | maxApiLevel level => wordCount 32 - 1 - level.toNat
  | _ => 0

variable {p q : Payload}

theorem bound?_eq_none (h : p.kind.isApiBound = false) : p.bound? = none := by
  cases p with
  | minApiLevel level | maxApiLevel level => cases h
  | _ => rfl

theorem exists_bound? (h : p.kind.isApiBound = true) : ∃ level, p.bound? = some level := by
  cases p with
  | minApiLevel level | maxApiLevel level => exact ⟨level, rfl⟩
  | _ => cases h

theorem tightness_eq_zero (h : p.kind.isApiBound = false) : p.tightness = 0 := by
  cases p with
  | minApiLevel level | maxApiLevel level => cases h
  | _ => rfl

theorem eq_minApiLevel (h : p.kind = .minApiLevel) : ∃ level, p = minApiLevel level := by
  cases p with
  | minApiLevel level => exact ⟨level, rfl⟩
  | _ => cases h

theorem eq_maxApiLevel (h : p.kind = .maxApiLevel) : ∃ level, p = maxApiLevel level := by
  cases p with
  | maxApiLevel level => exact ⟨level, rfl⟩
  | _ => cases h

/-- One bound of a kind is tighter than another one if its tightness is greater. -/
theorem tighter_iff (h : p.kind = q.kind) {level other : UInt32} (hp : p.bound? = some level)
    (hq : q.bound? = some other) : p.kind.tighter level other = true ↔ q.tightness < p.tightness := by
  cases p with
  | minApiLevel a =>
    obtain ⟨b, rfl⟩ := eq_minApiLevel h.symm
    obtain rfl := Option.some.inj hp
    obtain rfl := Option.some.inj hq
    simp [Kind.tighter, kind, tightness, UInt32.lt_iff_toNat_lt]
  | maxApiLevel a =>
    obtain ⟨b, rfl⟩ := eq_maxApiLevel h.symm
    obtain rfl := Option.some.inj hp
    obtain rfl := Option.some.inj hq
    have ha : a.toNat < wordCount 32 := a.toNat_lt
    have hb : b.toNat < wordCount 32 := b.toNat_lt
    simp only [Kind.tighter, kind, tightness, reduceCtorEq, if_false, decide_eq_true_eq,
      UInt32.lt_iff_toNat_lt]
    omega
  | _ => cases hp

end Payload

namespace Record

/-- What no two records of a dataset share. -/
def key (r : Record) : Pattern × Kind := (r.pattern, r.kind)

theorem rivals_iff {r q : Record} : r.rivals q = true ↔ r.key = q.key := by
  simp [rivals, key]

theorem kind_eq_of_key_eq {r q : Record} (h : r.key = q.key) : r.kind = q.kind :=
  congrArg Prod.snd h

theorem tightens_iff {r q : Record} (h : r.kind = q.kind) :
    r.tightens q = true ↔ q.payload.tightness < r.payload.tightness := by
  rw [tightens]
  cases hb : r.kind.isApiBound with
  | false =>
    have hq : q.payload.kind.isApiBound = false := by rw [← hb, h]; rfl
    rw [Payload.bound?_eq_none hq, Payload.tightness_eq_zero hq, Payload.tightness_eq_zero hb]
    simp
  | true =>
    have hq : q.payload.kind.isApiBound = true := by rw [← hb, h]; rfl
    obtain ⟨level, hr⟩ := Payload.exists_bound? hb
    obtain ⟨other, ho⟩ := Payload.exists_bound? hq
    rw [hr, ho]
    exact Payload.tighter_iff h hr ho

/-- The level of an API bound. -/
def level (r : Record) : UInt32 := r.payload.bound?.getD 0

theorem level_eq_of_min {r : Record} {n : UInt32} (h : r.payload = .minApiLevel n) : r.level = n := by
  rw [level, h]
  rfl

theorem level_eq_of_max {r : Record} {n : UInt32} (h : r.payload = .maxApiLevel n) : r.level = n := by
  rw [level, h]
  rfl

theorem tightness_le_iff_of_min {r q : Record} (hr : r.kind = .minApiLevel) (hq : q.kind = .minApiLevel) :
    q.payload.tightness ≤ r.payload.tightness ↔ q.level ≤ r.level := by
  obtain ⟨a, ha⟩ := Payload.eq_minApiLevel hr
  obtain ⟨b, hb⟩ := Payload.eq_minApiLevel hq
  rw [level_eq_of_min ha, level_eq_of_min hb, ha, hb]
  exact UInt32.le_iff_toNat_le.symm

theorem tightness_le_iff_of_max {r q : Record} (hr : r.kind = .maxApiLevel) (hq : q.kind = .maxApiLevel) :
    q.payload.tightness ≤ r.payload.tightness ↔ r.level ≤ q.level := by
  obtain ⟨a, ha⟩ := Payload.eq_maxApiLevel hr
  obtain ⟨b, hb⟩ := Payload.eq_maxApiLevel hq
  have hla : a.toNat < wordCount 32 := a.toNat_lt
  have hlb : b.toNat < wordCount 32 := b.toNat_lt
  rw [level_eq_of_max ha, level_eq_of_max hb, ha, hb]
  simp only [Payload.tightness, UInt32.le_iff_toNat_le]
  omega

end Record

end ApiRules
