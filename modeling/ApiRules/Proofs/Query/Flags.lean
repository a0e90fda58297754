import ApiRules.Proofs.Query.Replacement
import Mathlib.Data.List.Induction

/-!
What a union of flags shows of a value. The listed flags have the bits of all flags that the value contains,
and together with the remainder they have the bits of the value and no others.
-/
namespace ApiRules

/-- The bit of the integer at a position, in two's complement. -/
def bit (n : Int64) (i : Nat) : Bool := n.toBitVec.getLsbD i

theorem bit_ext {a b : Int64} (h : ∀ i, bit a i = bit b i) : a = b :=
  Int64.toBitVec_inj.1 (BitVec.eq_of_getLsbD_eq fun i _ => h i)

theorem bit_zero (i : Nat) : bit 0 i = false := BitVec.getLsbD_zero

theorem bit_and (a b : Int64) (i : Nat) : bit (a &&& b) i = (bit a i && bit b i) := by simp [bit]

theorem bit_or (a b : Int64) (i : Nat) : bit (a ||| b) i = (bit a i || bit b i) := by simp [bit]

theorem bit_and_not (a b : Int64) (i : Nat) : bit (a &&& ~~~b) i = (bit a i && !bit b i) := by
  by_cases h : i < 64
  · simp [bit, h]
  · simp [bit, BitVec.getLsbD_of_ge _ _ (Nat.le_of_not_lt h)]

theorem eq_zero_iff_bit {a : Int64} : a = 0 ↔ ∀ i, bit a i = false := by
  constructor
  · intro h i
    rw [h, bit_zero]
  · intro h
    apply bit_ext
    intro i
    rw [h, bit_zero]

theorem and_eq_right_iff_bit {a b : Int64} : a &&& b = b ↔ ∀ i, bit b i = true → bit a i = true := by
  constructor
  · intro h i hb
    rw [← h, bit_and, Bool.and_eq_true] at hb
    exact hb.1
  · intro h
    apply bit_ext
    intro i
    rw [bit_and]
    cases hb : bit b i with
    | false => exact Bool.and_false _
    | true => rw [h i hb, Bool.and_true]

theorem isInt_iff_exists {n : Int64} : IsInt n ↔ ∃ x : Int32, x.toInt64 = n := by
  have hw : wordCount 31 = 2147483648 := rfl
  constructor
  · rintro ⟨hlow, hhigh⟩
    refine ⟨Int32.ofInt n.toInt, Int64.toInt_inj.1 ?_⟩
    rw [Int32.toInt_toInt64]
    exact Int32.toInt_ofInt_of_le (by omega) (by omega)
  · rintro ⟨x, rfl⟩
    have hlow := x.le_toInt
    have hhigh := x.toInt_lt
    rw [IsInt, Int32.toInt_toInt64]
    omega

theorem isInt_zero : IsInt 0 := isInt_iff_exists.2 ⟨0, rfl⟩

theorem IsInt.or {a b : Int64} (ha : IsInt a) (hb : IsInt b) : IsInt (a ||| b) := by
  obtain ⟨x, rfl⟩ := isInt_iff_exists.1 ha
  obtain ⟨y, rfl⟩ := isInt_iff_exists.1 hb
  exact isInt_iff_exists.2 ⟨x ||| y, Int32.toInt64_or x y⟩

theorem IsInt.and_not {a b : Int64} (ha : IsInt a) (hb : IsInt b) : IsInt (a &&& ~~~b) := by
  obtain ⟨x, rfl⟩ := isInt_iff_exists.1 ha
  obtain ⟨y, rfl⟩ := isInt_iff_exists.1 hb
  have hnot : (~~~y).toInt64 = ~~~y.toInt64 := by
    apply Int64.toBitVec_inj.1
    simp [Int32.toBitVec_toInt64, BitVec.signExtend_not]
  exact isInt_iff_exists.2 ⟨x &&& ~~~y, by rw [Int32.toInt64_and, hnot]⟩

namespace Query

def union (flags : List (Int64 × ConstantName)) : Int64 := flags.foldr (fun f bits => f.1 ||| bits) 0

/-- The flags that the value contains. -/
def flagsIn (flags : List (Int64 × ConstantName)) (value : Int64) : List (Int64 × ConstantName) :=
  flags.filter fun f => value &&& f.1 = f.1

/-- The flags that a value is listed as. They are among those that it contains, each brings a bit that those
before it lack, and none of their bits is missing. -/
structure Lists (flags : List (Int64 × ConstantName)) (value : Int64)
    (listed : List (Int64 × ConstantName)) : Prop where
  sublist : listed.Sublist flags
  contained : ∀ f ∈ listed, value &&& f.1 = f.1
  fresh : ∀ before f after, listed = before ++ f :: after →
    ∃ i, bit f.1 i = true ∧ ∀ g ∈ before, bit g.1 i = false
  union_eq : union listed = union (flagsIn flags value)

theorem bit_union (flags : List (Int64 × ConstantName)) (i : Nat) :
    bit (union flags) i = flags.any fun f => bit f.1 i := by
  induction flags with
  | nil => exact bit_zero i
  | cons f flags ih =>
    rw [union, List.foldr_cons, ← union, bit_or, ih, List.any_cons]

theorem union_concat (flags : List (Int64 × ConstantName)) (f : Int64 × ConstantName) :
    union (flags ++ [f]) = union flags ||| f.1 := by
  apply bit_ext
  intro i
  simp [bit_union, bit_or]

theorem flagsIn_concat (flags : List (Int64 × ConstantName)) (value : Int64) (f : Int64 × ConstantName) :
    flagsIn (flags ++ [f]) value =
      if value &&& f.1 = f.1 then flagsIn flags value ++ [f] else flagsIn flags value := by
  by_cases h : value &&& f.1 = f.1 <;> simp [flagsIn, h]

theorem lists_nil (value : Int64) : Lists [] value [] where
  sublist := List.Sublist.slnil
  contained := by simp
  fresh := by simp
  union_eq := rfl

/-- A flag that is passed over has no bit that would be missing. -/
theorem Lists.skip {flags listed : List (Int64 × ConstantName)} {value : Int64} (h : Lists flags value listed)
    {f : Int64 × ConstantName} (hf : f.1 = 0 ∨ value &&& f.1 ≠ f.1 ∨ f.1 &&& ~~~union listed = 0) :
    Lists (flags ++ [f]) value listed where
  sublist := h.sublist.trans (List.sublist_append_left flags [f])
  contained := h.contained
  fresh := h.fresh
  union_eq := by
    rw [flagsIn_concat]
    by_cases hv : value &&& f.1 = f.1
    · have hcov : ∀ i, bit f.1 i = true → bit (union listed) i = true := by
        intro i hi
        obtain h0 | hne | hcov := hf
        · rw [h0, bit_zero] at hi
          cases hi
        · exact absurd hv hne
        · have hzero := eq_zero_iff_bit.1 hcov i
          rwa [bit_and_not, hi, Bool.true_and, Bool.not_eq_false'] at hzero
      rw [if_pos hv, union_concat, ← h.union_eq]
      apply bit_ext
      intro i
      rw [bit_or]
      cases hi : bit f.1 i with
      | false => rw [Bool.or_false]
      | true => rw [hcov i hi, Bool.or_true]
    · rw [if_neg hv, h.union_eq]

theorem Lists.take {flags listed : List (Int64 × ConstantName)} {value : Int64} (h : Lists flags value listed)
    {f : Int64 × ConstantName} (hv : value &&& f.1 = f.1) (hf : f.1 &&& ~~~union listed ≠ 0) :
    Lists (flags ++ [f]) value (listed ++ [f]) where
  sublist := h.sublist.append (List.Sublist.refl [f])
  contained := by
    intro g hg
    obtain hg | hg := List.mem_append.1 hg
    · exact h.contained g hg
    · rwa [List.mem_singleton.1 hg]
  fresh := by
    intro before g after he
    -- `g` is the new flag itself, or it was listed before
    obtain rfl | ⟨rest, last, rfl⟩ := List.eq_nil_or_concat after
    · obtain ⟨rfl, hg⟩ := List.append_inj' he rfl
      obtain rfl := (List.cons.inj hg).1
      have hbit : ∃ i, bit (f.1 &&& ~~~union listed) i = true := by
        simpa using mt eq_zero_iff_bit.2 hf
      obtain ⟨i, hi⟩ := hbit
      rw [bit_and_not, bit_union] at hi
      exact ⟨i, by simpa using hi⟩
    · rw [List.concat_eq_append, ← List.cons_append, ← List.append_assoc] at he
      exact h.fresh before g rest (List.append_inj' he rfl).1
  union_eq := by rw [flagsIn_concat, if_pos hv, union_concat, union_concat, h.union_eq]

theorem exists_lists (flags : List (Int64 × ConstantName)) (value : Int64) :
    ∃ listed, flags.foldl (addFlag value) (0, []) = (union listed, listed.map Prod.snd) ∧
      Lists flags value listed := by
  -- the bits taken so far are those of the flags listed so far
  induction flags using List.reverseRecOn with
  | nil => exact ⟨[], rfl, lists_nil value⟩
  | append_singleton flags f ih =>
    obtain ⟨listed, hfold, h⟩ := ih
    rw [List.foldl_concat, hfold, addFlag]
    by_cases hf : f.1 = 0 ∨ value &&& f.1 ≠ f.1 ∨ f.1 &&& ~~~union listed = 0
    · rw [if_pos hf]
      exact ⟨listed, rfl, h.skip hf⟩
    · rw [if_neg hf]
      obtain ⟨-, hv, hn⟩ := by simpa only [not_or, not_not] using hf
      exact ⟨listed ++ [f], by rw [union_concat, List.map_append]; rfl, h.take hv hn⟩

/-- No flag is listed exactly if the value contains no flag but empty ones. -/
theorem Lists.eq_nil_iff {flags listed : List (Int64 × ConstantName)} {value : Int64}
    (h : Lists flags value listed) : listed = [] ↔ ∀ f ∈ flags, f.1 ≠ 0 → value &&& f.1 ≠ f.1 := by
  constructor
  · rintro rfl f hf hne hv
    apply hne
    apply eq_zero_iff_bit.2
    intro i
    have hu : (flagsIn flags value).any (fun g => bit g.1 i) = false := by
      rw [← bit_union, ← h.union_eq]
      exact bit_zero i
    have hm : f ∈ flagsIn flags value := List.mem_filter.2 ⟨hf, decide_eq_true hv⟩
    exact Bool.eq_false_iff.2 (List.any_eq_false.1 hu f hm)
  · intro hall
    cases listed with
    | nil => rfl
    | cons f rest =>
      obtain ⟨i, hi, -⟩ := h.fresh [] f rest rfl
      have hne : f.1 ≠ 0 := fun h0 => by simp [h0, bit_zero] at hi
      exact absurd (h.contained f List.mem_cons_self) (hall f (h.sublist.subset List.mem_cons_self) hne)

theorem Lists.bit_value {flags listed : List (Int64 × ConstantName)} {value : Int64}
    (h : Lists flags value listed) {i : Nat} (hi : bit (union listed) i = true) : bit value i = true := by
  rw [bit_union, List.any_eq_true] at hi
  obtain ⟨f, hf, hi⟩ := hi
  exact and_eq_right_iff_bit.1 (h.contained f hf) i hi

/-- The listed flags and the remainder are the value, and have no bit in common. -/
structure Unfolds (flags : List (Int64 × ConstantName)) (value : Int64) (listed : List (Int64 × ConstantName))
    (rest : Option Int64) : Prop extends Lists flags value listed where
  union_or_rest : union listed ||| rest.getD 0 = value
  and_rest : ∀ f ∈ listed, f.1 &&& rest.getD 0 = 0
  rest_eq_none_iff : rest = none ↔ union listed = value

theorem Lists.unfolds {flags listed : List (Int64 × ConstantName)} {value : Int64}
    (h : Lists flags value listed) :
    Unfolds flags value listed
      (if value &&& ~~~union listed = 0 then none else some (value &&& ~~~union listed)) := by
  have hget : (if value &&& ~~~union listed = 0 then none else some (value &&& ~~~union listed)).getD 0 =
      value &&& ~~~union listed := by
    by_cases h0 : value &&& ~~~union listed = 0 <;> simp [h0]
  have hor : union listed ||| value &&& ~~~union listed = value := by
    apply bit_ext
    intro i
    rw [bit_or, bit_and_not]
    cases hi : bit (union listed) i with
    | false => simp
    | true => simp [h.bit_value hi]
  refine ⟨h, by rw [hget, hor], fun f hf => ?_, ?_⟩
  · rw [hget]
    apply eq_zero_iff_bit.2
    intro i
    rw [bit_and, bit_and_not]
    cases hi : bit f.1 i with
    | false => rfl
    | true =>
      have hu : bit (union listed) i = true := by
        rw [bit_union]
        exact List.any_eq_true.2 ⟨f, hf, hi⟩
      simp [hu]
  · constructor
    · intro hn
      have h0 : value &&& ~~~union listed = 0 := by
        by_contra hne
        simp [hne] at hn
      rwa [h0, Int64.or_zero] at hor
    · intro hu
      have h0 : value &&& ~~~union listed = 0 := by
        apply eq_zero_iff_bit.2
        intro i
        rw [hu, bit_and_not, Bool.and_not_self]
      rw [if_pos h0]

theorem unfoldFlags_eq (flags : List (Int64 × ConstantName)) (value : Int64) :
    ∃ listed rest, Unfolds flags value listed rest ∧ unfoldFlags flags value =
      if listed = [] then none else some (.flags value (listed.map Prod.snd) rest) := by
  obtain ⟨listed, hfold, h⟩ := exists_lists flags value
  refine ⟨listed, _, h.unfolds, ?_⟩
  simp only [unfoldFlags, hfold, List.map_eq_nil_iff]

theorem isInt_union {flags : List (Int64 × ConstantName)} (h : ∀ f ∈ flags, IsInt f.1) :
    IsInt (union flags) := by
  induction flags with
  | nil => exact isInt_zero
  | cons f flags ih =>
    exact (h f List.mem_cons_self).or (ih fun g hg => h g (List.mem_cons_of_mem f hg))

/-- The remainder has the bits of the value that no listed flag has. -/
theorem Unfolds.rest_eq {flags listed : List (Int64 × ConstantName)} {value : Int64} {rest : Option Int64}
    (h : Unfolds flags value listed rest) : rest.getD 0 = value &&& ~~~union listed := by
  apply bit_ext
  intro i
  have hor : bit value i = (bit (union listed) i || bit (rest.getD 0) i) := by
    rw [← bit_or, h.union_or_rest]
  rw [bit_and_not, hor]
  cases hu : bit (union listed) i with
  | false => simp
  | true =>
    rw [bit_union, List.any_eq_true] at hu
    obtain ⟨f, hf, hi⟩ := hu
    have hand := eq_zero_iff_bit.1 (h.and_rest f hf) i
    rw [bit_and, hi, Bool.true_and] at hand
    simp [hand]

theorem isInt_of_unfoldFlags {flags : List (Int64 × ConstantName)} (hflags : ∀ f ∈ flags, IsInt f.1)
    {value v : Int64} (hvalue : IsInt value) {names : List ConstantName} {rest : Option Int64}
    (hu : unfoldFlags flags value = some (.flags v names rest)) : IsInt v ∧ ∀ x ∈ rest, IsInt x := by
  obtain ⟨listed, rest', h, heq⟩ := unfoldFlags_eq flags value
  rw [hu] at heq
  split at heq
  · cases heq
  · obtain ⟨rfl, -, rfl⟩ := Replacement.flags.inj (Option.some.inj heq)
    refine ⟨hvalue, ?_⟩
    rintro x rfl
    have hlisted : IsInt (union listed) := isInt_union fun f hf => hflags f (h.sublist.subset hf)
    have hrest := h.rest_eq
    rw [Option.getD_some] at hrest
    rw [hrest]
    exact hvalue.and_not hlisted

/-- A value is shown as the flags that it contains and a remainder, with nothing lost. -/
theorem flags_lossless (flags : List (Int64 × ConstantName)) (value : Int64) :
    (unfoldFlags flags value = none ↔ ∀ f ∈ flags, f.1 ≠ 0 → value &&& f.1 ≠ f.1) ∧
    (∀ r, unfoldFlags flags value = some r → ∃ listed rest, r = .flags value (listed.map Prod.snd) rest ∧
      Unfolds flags value listed rest) ∧
    ∀ (t : Table.Typedef) (constants : List Table.Constant) (n v : Int64) (names : List ConstantName)
      (rest : Option Int64), t.kind = .int → -(wordCount 31 : Int) ≤ n.toInt → n.toInt < wordCount 32 →
      replacement? (t.resolve constants) (.integer n) = some (.flags v names rest) →
      IsInt v ∧ ∀ x ∈ rest, IsInt x := by
  obtain ⟨listed, rest, h, heq⟩ := unfoldFlags_eq flags value
  refine ⟨?_, ?_, ?_⟩
  · rw [heq, ← h.eq_nil_iff]
    simp
  · intro r hr
    rw [heq] at hr
    split at hr
    · cases hr
    · exact ⟨listed, rest, (Option.some.inj hr).symm, h⟩
  · intro t constants n v names rest ht hlow hhigh hr
    have hn : IsInt (t.kind.coerce n) := by
      rw [ht]
      exact ConstantKind.isInt_coerce_int hlow hhigh
    obtain ⟨-, -, -, m, hm, hu⟩ := of_replacement?_eq_flags hr
    obtain rfl := Argument.integer.inj hm
    exact isInt_of_unfoldFlags (fun f hf => Table.Typedef.isInt_of_mem_integer ht hf) hn hu

/-- Flags of an `int` with its highest bit set. The argument is given without its sign. -/
theorem flags_of_high_bit :
    let t : Table.Typedef := ⟨"a.B#m(int)", 0, .int, true, ["a.B.HIGH", "a.B.LOW"], .sdkLint, none⟩
    let constants : List Table.Constant := [⟨"a.B.HIGH", "0x80000000"⟩, ⟨"a.B.LOW", "1"⟩]
    t.kind = .int ∧ (-(wordCount 31 : Int) ≤ (0x80000003 : Int64).toInt) ∧
      (0x80000003 : Int64).toInt < wordCount 32 ∧
      replacement? (t.resolve constants) (.integer 0x80000003) =
        some (.flags (-2147483645) [⟨"a.B", "HIGH"⟩, ⟨"a.B", "LOW"⟩] (some 2)) ∧
      IsInt (-2147483645) ∧ IsInt 2 := by
  intro t constants
  have hlow : -(wordCount 31 : Int) ≤ (0x80000003 : Int64).toInt := by decide
  have hhigh : (0x80000003 : Int64).toInt < wordCount 32 := by decide
  have hr : replacement? (t.resolve constants) (.integer 0x80000003) =
      some (.flags (-2147483645) [⟨"a.B", "HIGH"⟩, ⟨"a.B", "LOW"⟩] (some 2)) := by decide
  obtain ⟨hv, hrest⟩ := (flags_lossless [] 0).2.2 t constants _ _ _ _ rfl hlow hhigh hr
  exact ⟨rfl, hlow, hhigh, hr, hv, hrest 2 rfl⟩

end Query

end ApiRules
