import ApiRules.Archive.Bytes

/-!
Numbers and texts are read back from their bytes, and bytes from where they stand.
-/
namespace ApiRules.Archive

theorem length_ofNat (size n : Nat) : (ofNat size n).length = size := by
  induction size generalizing n with
  | zero => rfl
  | succ size ih => rw [ofNat, List.length_cons, ih]

theorem toNat_ofNat {size n : Nat} (h : n < wordCount (8 * size)) : toNat (ofNat size n) = n := by
  induction size generalizing n with
  | zero =>
    have hn : n = 0 := Nat.lt_one_iff.1 h
    rw [hn]
    rfl
  | succ size ih =>
    have hcount : wordCount (8 * (size + 1)) = wordCount (8 * size) * 256 := Nat.pow_add 2 (8 * size) 8
    have hrest : n / 256 < wordCount (8 * size) := Nat.div_lt_of_lt_mul (by omega)
    rw [ofNat, toNat, ih hrest, UInt8.toNat_ofNat']
    exact Nat.mod_add_div n 256

theorem toNat_lt (bs : Bytes) : toNat bs < wordCount (8 * bs.length) := by
  induction bs with
  | nil => exact wordCount_pos 0
  | cons b bs ih =>
    have hcount : wordCount (8 * (bs.length + 1)) = wordCount (8 * bs.length) * 256 :=
      Nat.pow_add 2 (8 * bs.length) 8
    have hb : b.toNat < 256 := b.toNat_lt
    rw [toNat, List.length_cons, hcount]
    omega

theorem ofNat_toNat (bs : Bytes) : ofNat bs.length (toNat bs) = bs := by
  induction bs with
  | nil => rfl
  | cons b bs ih =>
    have hb : b.toNat < 256 := b.toNat_lt
    have hdiv : (b.toNat + 256 * toNat bs) / 256 = toNat bs := by omega
    have hlow : UInt8.ofNat (b.toNat + 256 * toNat bs) = b := by
      apply UInt8.toNat_inj.1
      rw [UInt8.toNat_ofNat']
      omega
    rw [List.length_cons, toNat, ofNat, hdiv, ih, hlow]

/-- Four bytes spell one word, and this word is written with them. -/
theorem ofNat_toNat_eq_iff {bs : Bytes} (h : bs.length = 4) {n : UInt32} :
    UInt32.ofNat (toNat bs) = n ↔ bs = ofNat 4 n.toNat := by
  constructor
  · rintro rfl
    have hlt : toNat bs < wordCount 32 := by
      have hlt := toNat_lt bs
      rwa [h] at hlt
    have hn : (UInt32.ofNat (toNat bs)).toNat = toNat bs := UInt32.toNat_ofNat_of_lt' hlt
    rw [hn, ← h, ofNat_toNat]
  · rintro rfl
    have hlt : n.toNat < wordCount (8 * 4) := n.toNat_lt
    rw [toNat_ofNat hlt, UInt32.ofNat_toNat]

theorem length_ofInt (n : Int) : (ofInt n).length = 4 := length_ofNat 4 _

theorem toInt_ofInt {n : Int} (hlow : -wordCount 31 ≤ n) (hhigh : n < wordCount 31) :
    toInt (ofInt n) = n := by
  have hcount : wordCount 32 = wordCount 31 * 2 := wordCount_succ 31
  have hpos : 0 < wordCount 31 := wordCount_pos 31
  have hmod : ((n % wordCount 32).toNat : Int) = n % wordCount 32 :=
    Int.toNat_of_nonneg (Int.emod_nonneg n (by omega))
  have hlt : (n % wordCount 32).toNat < wordCount (8 * 4) := by
    have hlt := Int.emod_lt_of_pos n (b := wordCount 32) (by omega)
    rw [← hmod] at hlt
    exact Int.ofNat_lt.1 hlt
  rw [toInt, ofInt, toNat_ofNat hlt, hmod, Int.emod_bmod]
  exact Int.bmod_eq_of_le (by omega) (by omega)

/-! ### Texts -/

theorem toText?_ofText (s : String) : toText? (ofText s) = some s := by
  unfold toText? String.fromUTF8?
  exact dif_pos s.isValidUTF8

theorem ofText_eq_flatMap (s : String) : ofText s = s.toList.flatMap String.utf8EncodeChar := by
  rw [ofText, String.toUTF8_eq_toByteArray, ← String.utf8Encode_toList, List.utf8Encode,
    List.data_toByteArray]

theorem ff_not_mem_utf8EncodeChar (c : Char) : 0xff ∉ String.utf8EncodeChar c := by
  have hlow : ∀ n < 0xff, UInt8.ofNat n ≠ 0xff := by decide +kernel
  suffices h : ∀ b ∈ String.utf8EncodeChar c, b ≠ 0xff from fun hff => h 0xff hff rfl
  fun_cases String.utf8EncodeChar c with
  | case1 v hv =>
    rw [List.forall_mem_singleton]
    exact hlow _ (by omega)
  | case2 v =>
    simp only [List.forall_mem_cons]
    exact ⟨hlow _ (by omega), hlow _ (by omega), List.forall_mem_nil _⟩
  | case3 v =>
    simp only [List.forall_mem_cons]
    exact ⟨hlow _ (by omega), hlow _ (by omega), hlow _ (by omega), List.forall_mem_nil _⟩
  | case4 v =>
    simp only [List.forall_mem_cons]
    exact ⟨hlow _ (by omega), hlow _ (by omega), hlow _ (by omega), hlow _ (by omega),
      List.forall_mem_nil _⟩

/-- 0xff stands in no text. -/
theorem ff_not_mem_ofText (s : String) : 0xff ∉ ofText s := by
  rw [ofText_eq_flatMap, List.mem_flatMap]
  rintro ⟨c, -, hc⟩
  exact ff_not_mem_utf8EncodeChar c hc

theorem leadingBits_of_isUTF8FirstByte {b : UInt8} (h : b.IsUTF8FirstByte) : b.toNat / 64 ≠ 2 := by
  have hall : ∀ n < 256, (UInt8.ofNat n).IsUTF8FirstByte → n / 64 ≠ 2 := by decide +kernel
  exact hall b.toNat b.toNat_lt (by rwa [UInt8.ofNat_toNat])

/-- No text begins with the bits 10. -/
theorem leadingBits_ofText {s : String} {b : UInt8} {bs : Bytes} (h : ofText s = b :: bs) :
    b.toNat / 64 ≠ 2 := by
  have hdata : s.toByteArray.data = (b :: bs).toArray := by
    rw [← h, ofText, String.toUTF8_eq_toByteArray, Array.toArray_toList]
  have hsize : 0 < s.toByteArray.size := by
    rw [← ByteArray.size_data, hdata, List.size_toArray]
    exact Nat.succ_pos _
  have hfirst := s.isValidUTF8.isUTF8FirstByte_getElem_zero hsize
  have hb : s.toByteArray[0] = b := by
    simp only [ByteArray.getElem_eq_getElem_data, hdata, List.getElem_toArray, List.getElem_cons_zero]
  rw [hb] at hfirst
  exact leadingBits_of_isUTF8FirstByte hfirst

/-! ### Positions -/

theorem length_zeros (n : Nat) : (zeros n).length = n := List.length_replicate

theorem le_add_padding (position : Nat) : position ≤ position + padding position :=
  Nat.le_add_right position _

theorem mod_padding (position : Nat) : (position + padding position) % 4 = 0 := by
  unfold padding
  omega

theorem slice_eq (data : Array UInt8) (position size : Nat) :
    slice data position size = (data.toList.drop position).take size := by
  rw [slice, Array.toList_extract, List.extract_eq_take_drop, Nat.add_sub_cancel_left]

/-- These bytes stand at a position. -/
def Holds (data : Array UInt8) (position : Nat) (bs : Bytes) : Prop :=
  bs <+: data.toList.drop position

namespace Holds

variable {data : Array UInt8} {position : Nat} {bs cs : Bytes}

theorem of_eq (h : bs = cs) : Holds cs.toArray 0 bs := by
  rw [h]
  exact List.prefix_rfl

theorem slice_eq {n : Nat} (h : Holds data position bs) (hn : bs.length = n) :
    slice data position n = bs := by
  rw [Archive.slice_eq, ← hn]
  exact (List.prefix_iff_eq_take.1 h).symm

theorem getD_eq {b : UInt8} (h : Holds data position (b :: bs)) : data.getD position 0 = b := by
  obtain ⟨rest, h⟩ := h
  have hget : data[position]? = some b := by
    rw [← Array.getElem?_toList, ← List.head?_drop, ← h]
    rfl
  rw [Array.getD_eq_getD_getElem?, hget, Option.getD_some]

theorem append_iff : Holds data position (bs ++ cs) ↔
    Holds data position bs ∧ Holds data (position + bs.length) cs := by
  unfold Holds
  rw [← List.drop_drop]
  constructor
  · rintro ⟨rest, h⟩
    rw [← h, List.append_assoc]
    refine ⟨List.prefix_append _ _, ?_⟩
    rw [List.drop_left]
    exact List.prefix_append _ _
  · rintro ⟨⟨rest, h⟩, hcs⟩
    rw [← h, List.drop_left] at hcs
    rw [← h]
    exact (List.prefix_append_right_inj bs).2 hcs

end Holds

end ApiRules.Archive
