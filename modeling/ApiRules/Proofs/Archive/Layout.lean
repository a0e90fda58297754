import ApiRules.Archive.Layout
import ApiRules.Proofs.Archive.Bytes

/-!
Values are read back from their layouts, wherever they are written. The outer part of a value must end
in the free range that the reader has, and begin where that range begins; the reader leaves the range
at the end of the outer part, which is where the writer puts the next one.
-/
namespace ApiRules.Archive.Layout

variable {α β : Type}

/-- A layout holds a value without loss. -/
structure Faithful (layout : Layout α) (a : α) : Prop where
  length_inner (position place : Nat) :
    ((layout.write position a).inner place).length = layout.size
  /-- Lengths and pointers have room if both parts end below 2^30. -/
  fits {position place : Nat} :
    position + (layout.write position a).outer.length < wordCount 30 →
    place + layout.size < wordCount 30 → (layout.write position a).fits place = true
  /-- The value is read where its parts stand, and the outer part is used up. -/
  read_write {data : Array UInt8} {position place high : Nat} :
    (layout.write position a).fits place = true →
    Holds data position (layout.write position a).outer →
    Holds data place ((layout.write position a).inner place) →
    position + (layout.write position a).outer.length ≤ high →
    layout.read data position high place = some (a, position + (layout.write position a).outer.length)

theorem faithful_byte {toByte : α → UInt8} {ofByte? : UInt8 → Option α} {a : α}
    (h : ofByte? (toByte a) = some a) : (byte toByte ofByte?).Faithful a where
  length_inner _ _ := rfl
  fits _ _ := rfl
  read_write _ _ hinner _ := by
    simp only [byte, hinner.getD_eq, h, Option.map_some, List.length_nil, Nat.add_zero]

theorem faithful_word (n : UInt32) : word.Faithful n where
  length_inner _ _ := length_ofNat 4 _
  fits _ _ := rfl
  read_write _ _ hinner _ := by
    have hn : toNat (ofNat 4 n.toNat) = n.toNat := toNat_ofNat n.toNat_lt
    have hslice := hinner.slice_eq (length_ofNat 4 n.toNat)
    simp only [word] at hslice ⊢
    rw [hslice, hn, UInt32.ofNat_toNat, List.length_nil, Nat.add_zero]

theorem faithful_nothing (a : α) : (nothing a).Faithful a where
  length_inner _ _ := rfl
  fits _ _ := rfl
  read_write _ _ _ _ := rfl

section

variable {layout : Layout α}

theorem Faithful.pad {a : α} (h : layout.Faithful a) (room : Nat) : (layout.pad room).Faithful a where
  length_inner position place := by
    simp only [Layout.pad, List.length_append, h.length_inner, length_zeros]
  fits houter hplace := h.fits houter (Nat.lt_of_le_of_lt (by simp [Layout.pad]) hplace)
  read_write hfits houter hinner hhigh := h.read_write hfits houter (Holds.append_iff.1 hinner).1 hhigh

theorem Faithful.map {forth : α → β} {back : β → α} {b : β} (h : layout.Faithful (back b))
    (hb : forth (back b) = b) : (layout.map forth back).Faithful b where
  length_inner := h.length_inner
  fits := h.fits
  read_write hfits houter hinner hhigh := by
    have hread := h.read_write hfits houter hinner hhigh
    simp only [Layout.map, hread, Option.map_some, hb]

theorem Faithful.pair {second : Layout β} {a : α} {b : β} (ha : layout.Faithful a)
    (hb : second.Faithful b) : (layout.pair second).Faithful (a, b) where
  length_inner position place := by
    simp only [Layout.pair, List.length_append, ha.length_inner, hb.length_inner]
  fits := by
    intro position place houter hplace
    simp only [Layout.pair, List.length_append, Bool.and_eq_true] at houter hplace ⊢
    exact ⟨ha.fits (by omega) (by omega), hb.fits (by omega) (by omega)⟩
  read_write := by
    intro data position place high hfits houter hinner hhigh
    simp only [Layout.pair, List.length_append, Bool.and_eq_true, Holds.append_iff, ha.length_inner]
      at hfits houter hinner hhigh ⊢
    rw [← Nat.add_assoc] at hhigh ⊢
    have hreadA := ha.read_write hfits.1 houter.1 hinner.1 (Nat.le_trans (Nat.le_add_right _ _) hhigh)
    have hreadB := hb.read_write hfits.2 houter.2 hinner.2 hhigh
    simp only [hreadA, hreadB, Option.bind_eq_bind, Option.bind_some, Option.pure_def]

theorem faithful_option {o : Option α} (h : ∀ a ∈ o, layout.Faithful a) : layout.option.Faithful o := by
  cases o with
  | none =>
    refine ⟨fun _ _ => length_zeros _, fun _ _ => rfl, ?_⟩
    intro data position place high _ _ hinner _
    have hzeros : zeros (4 + layout.size) = zeros 4 ++ zeros layout.size :=
      List.replicate_append_replicate.symm
    simp only [option, hzeros, Holds.append_iff] at hinner
    have hbyte : data.getD place 0 = 0 := hinner.1.getD_eq
    simp only [option, hbyte]
    rfl
  | some a =>
    have ha := h a rfl
    refine ⟨?_, ?_, ?_⟩
    · intro position place
      simp only [option, List.length_append, List.length_cons, length_zeros, ha.length_inner]
    · intro position place houter hplace
      exact ha.fits houter (by rwa [Nat.add_assoc])
    · intro data position place high hfits houter hinner hhigh
      have hinner := Holds.append_iff.1 hinner
      have hbyte := hinner.1.getD_eq
      have hread := ha.read_write hfits houter hinner.2 hhigh
      simp only [option, hbyte, hread, Option.map_some]

theorem faithful_tagged {room : Nat} {tag : α → UInt8} {alternative? : UInt8 → Option (Layout α)}
    {a : α} {chosen : Layout α} (htag : alternative? (tag a) = some chosen) (hroom : chosen.size ≤ room)
    (h : chosen.Faithful a) : (tagged room tag alternative?).Faithful a where
  length_inner position place := by
    simp only [tagged, htag, List.length_append, List.length_cons, length_zeros, h.length_inner]
    omega
  fits := by
    intro position place houter hplace
    simp only [tagged, htag] at houter hplace ⊢
    exact h.fits houter (by omega)
  read_write := by
    intro data position place high hfits houter hinner hhigh
    simp only [tagged, htag] at hfits houter hinner hhigh ⊢
    rw [Holds.append_iff, Holds.append_iff] at hinner
    have hbyte := hinner.1.1.getD_eq
    have hread := h.read_write hfits houter hinner.1.2 hhigh
    simp only [hbyte, htag, hread, Option.bind_eq_bind, Option.bind_some]

end

/-! ### Texts and vectors -/

theorem ofLengthMark_lengthMark (n : Nat) : ofLengthMark (lengthMark n) = n := by
  unfold ofLengthMark lengthMark
  omega

/-- The first byte of the length of an outer text. -/
theorem leadingBits_lengthMark (n : Nat) : lengthMark n % 256 / 64 = 2 := by
  unfold lengthMark
  omega

theorem lengthMark_lt {n : Nat} (h : n < wordCount 30) : lengthMark n < wordCount 32 := by
  have hcount : wordCount 32 = wordCount 24 * 256 := rfl
  have hdiv : n / 64 < wordCount 24 := Nat.div_lt_of_lt_mul h
  unfold lengthMark
  omega

theorem isDistance_of_lt {position place : Nat} (hposition : position < wordCount 30)
    (hplace : place < wordCount 30) : isDistance (position - place) = true := by
  have hcount : wordCount 31 = wordCount 30 * 2 := wordCount_succ 30
  exact decide_eq_true (by omega)

/-- A pointer leads to its target. -/
theorem target?_of_isDistance {data : Array UInt8} {low high position place start size alignment : Nat}
    (hdistance : isDistance (start - place) = true)
    (hpointer : Holds data position (ofInt (start - place))) (hlow : low ≤ start)
    (hhigh : start + size ≤ high) (halign : start % alignment = 0) :
    target? low high place size alignment (toInt (slice data position 4)) = some start := by
  have hd := of_decide_eq_true hdistance
  have hstart : (place : Int) + (start - place) = start := by omega
  rw [hpointer.slice_eq (length_ofInt _), toInt_ofInt hd.1 hd.2, target?, hstart]
  rw [if_pos ⟨by omega, by omega, by omega⟩]
  rfl

/-- An inner text ends where 0xff begins. -/
theorem takeWhile_ofText_append (s : String) (n : Nat) :
    (ofText s ++ List.replicate n 0xff).takeWhile (· ≠ 0xff) = ofText s := by
  have hpos : ∀ b ∈ ofText s, decide (b ≠ 0xff) = true :=
    fun b hb => decide_eq_true fun he => ff_not_mem_ofText s (he ▸ hb)
  rw [List.takeWhile_append_of_pos hpos, List.takeWhile_replicate]
  simp

/-- The first byte of an inner text tells it from an outer one. -/
theorem leadingBits_inner {data : Array UInt8} {position : Nat} {s : String}
    (h : Holds data position (ofText s ++ List.replicate (8 - (ofText s).length) 0xff)) :
    (data.getD position 0).toNat / 64 ≠ 2 := by
  cases hs : ofText s with
  | nil =>
    rw [hs] at h
    rw [h.getD_eq]
    decide
  | cons b bs =>
    rw [hs] at h
    rw [h.getD_eq]
    exact leadingBits_ofText hs

theorem leadingBits_outer {data : Array UInt8} {position n : Nat}
    (h : Holds data position (ofNat 4 (lengthMark n))) : (data.getD position 0).toNat / 64 = 2 := by
  have hbyte : data.getD position 0 = UInt8.ofNat (lengthMark n) := h.getD_eq
  rw [hbyte, UInt8.toNat_ofNat']
  exact leadingBits_lengthMark n

theorem readOuterText_eq {data : Array UInt8} {position place high : Nat} {s : String}
    (hlen : 8 < (ofText s).length) (hmark : lengthMark (ofText s).length < wordCount 32)
    (hdistance : isDistance (position - place) = true) (houter : Holds data position (ofText s))
    (hlength : Holds data place (ofNat 4 (lengthMark (ofText s).length)))
    (hpointer : Holds data (place + 4) (ofInt (position - place)))
    (hhigh : position + (ofText s).length ≤ high) :
    readOuterText data position high place = some (s, position + (ofText s).length) := by
  have hsize : ofLengthMark (toNat (slice data place 4)) = (ofText s).length := by
    rw [hlength.slice_eq (length_ofNat 4 _), toNat_ofNat hmark, ofLengthMark_lengthMark]
  have htarget : target? position high place (ofText s).length 1 (toInt (slice data (place + 4) 4)) =
      some position :=
    target?_of_isDistance hdistance hpointer (Nat.le_refl position) hhigh (Nat.mod_one position)
  simp only [readOuterText, hsize, if_neg (Nat.not_le.2 hlen), htarget, houter.slice_eq rfl,
    toText?_ofText, Option.bind_eq_bind, Option.bind_some, Option.pure_def]

theorem faithful_text (s : String) : text.Faithful s := by
  by_cases hlen : (ofText s).length ≤ 8
  · refine ⟨?_, ?_, ?_⟩
    · intro position place
      simp only [text, if_pos hlen, List.length_append, List.length_replicate]
      omega
    · intro position place _ _
      simp only [text, if_pos hlen]
    · intro data position place high _ _ hinner _
      simp only [text, if_pos hlen] at hinner ⊢
      have hslice : slice data place 8 = _ := hinner.slice_eq (by
        simp only [List.length_append, List.length_replicate]
        omega)
      rw [if_neg (leadingBits_inner hinner), hslice, takeWhile_ofText_append, toText?_ofText]
      rfl
  · refine ⟨?_, ?_, ?_⟩
    · intro position place
      simp only [text, if_neg hlen, List.length_append, length_ofNat, length_ofInt]
    · intro position place houter hplace
      simp only [text, if_neg hlen, Bool.and_eq_true, decide_eq_true_eq] at houter hplace ⊢
      exact ⟨lengthMark_lt (by omega), isDistance_of_lt (by omega) (by omega)⟩
    · intro data position place high hfits houter hinner hhigh
      simp only [text, if_neg hlen, Bool.and_eq_true, decide_eq_true_eq, Holds.append_iff, length_ofNat]
        at hfits houter hinner hhigh ⊢
      rw [if_pos (leadingBits_outer hinner.1)]
      exact readOuterText_eq (Nat.not_le.1 hlen) hfits.1 hfits.2 houter hinner.1 hinner.2 hhigh

section

variable {layout : Layout α} {as : List α}

theorem length_writeAll (h : ∀ a ∈ as, layout.Faithful a) (position place : Nat) :
    ((writeAll layout position as).inner place).length = as.length * layout.size := by
  induction as generalizing position place with
  | nil => exact (Nat.zero_mul _).symm
  | cons a as ih =>
    obtain ⟨ha, has⟩ := List.forall_mem_cons.1 h
    simp only [writeAll, List.length_append, ha.length_inner, ih has, List.length_cons, Nat.succ_mul,
      Nat.add_comm]

theorem fits_writeAll (h : ∀ a ∈ as, layout.Faithful a) {position place : Nat}
    (houter : position + (writeAll layout position as).outer.length < wordCount 30)
    (hplace : place + as.length * layout.size < wordCount 30) :
    (writeAll layout position as).fits place = true := by
  induction as generalizing position place with
  | nil => rfl
  | cons a as ih =>
    obtain ⟨ha, has⟩ := List.forall_mem_cons.1 h
    simp only [writeAll, List.length_append, List.length_cons, Nat.succ_mul, Bool.and_eq_true]
      at houter hplace ⊢
    exact ⟨ha.fits (by omega) (by omega), ih has (by omega) (by omega)⟩

theorem readAll_writeAll (h : ∀ a ∈ as, layout.Faithful a) {data : Array UInt8}
    {position place high : Nat} (hfits : (writeAll layout position as).fits place = true)
    (houter : Holds data position (writeAll layout position as).outer)
    (hinner : Holds data place ((writeAll layout position as).inner place))
    (hhigh : position + (writeAll layout position as).outer.length ≤ high) :
    readAll layout data high as.length position place =
      some (as, position + (writeAll layout position as).outer.length) := by
  induction as generalizing position place with
  | nil => rfl
  | cons a as ih =>
    obtain ⟨ha, has⟩ := List.forall_mem_cons.1 h
    simp only [writeAll, List.length_append, Bool.and_eq_true, Holds.append_iff, ha.length_inner]
      at hfits houter hinner hhigh ⊢
    rw [← Nat.add_assoc] at hhigh ⊢
    have hread := ha.read_write hfits.1 houter.1 hinner.1 (Nat.le_trans (Nat.le_add_right _ _) hhigh)
    have hreads := ih has hfits.2 houter.2 hinner.2 hhigh
    simp only [List.length_cons, readAll, hread, hreads, Option.bind_eq_bind, Option.bind_some,
      Option.pure_def]

theorem faithful_vector (hsize : 0 < layout.size) (h : ∀ a ∈ as, layout.Faithful a) :
    (vector layout).Faithful as where
  length_inner position place := by
    simp only [vector, List.length_append, length_ofInt, length_ofNat]
  fits := by
    intro position place houter hplace
    have hcount : as.length ≤ as.length * layout.size := Nat.le_mul_of_pos_right _ hsize
    have hwords : wordCount 32 = wordCount 30 * 4 := rfl
    simp only [vector, List.length_append, length_zeros, length_writeAll h, Bool.and_eq_true,
      decide_eq_true_eq] at houter hplace ⊢
    exact ⟨⟨by omega, isDistance_of_lt (by omega) (by omega)⟩, fits_writeAll h (by omega) (by omega)⟩
  read_write := by
    intro data position place high hfits houter hinner hhigh
    simp only [vector, List.length_append, length_zeros, length_writeAll h, length_ofInt,
      Bool.and_eq_true, decide_eq_true_eq, Holds.append_iff, ← Nat.add_assoc]
      at hfits houter hinner hhigh ⊢
    -- the outer parts of the elements end before their inner parts begin
    have hgap := le_add_padding (position + (writeAll layout position as).outer.length)
    have halign := mod_padding (position + (writeAll layout position as).outer.length)
    generalize position + (writeAll layout position as).outer.length +
      padding (position + (writeAll layout position as).outer.length) = start
      at hfits houter hinner hhigh hgap halign ⊢
    obtain ⟨⟨hlength, hdistance⟩, hfits⟩ := hfits
    have hcount : toNat (slice data (place + 4) 4) = as.length := by
      rw [hinner.2.slice_eq (length_ofNat 4 _), toNat_ofNat hlength]
    have htarget := target?_of_isDistance hdistance hinner.1
      (Nat.le_trans (Nat.le_add_right _ _) hgap) hhigh halign
    have hread := readAll_writeAll h hfits houter.1.1 houter.2 hgap
    simp only [hcount, htarget, hread, Option.bind_eq_bind, Option.bind_some, Option.pure_def]

end

/-! ### Archives -/

section

variable {layout : Layout α} {a : α}

/-- How many bytes the archive of a value has. -/
def archiveSize (layout : Layout α) (a : α) : Nat :=
  let size := (layout.write 0 a).outer.length
  size + padding size + layout.size

theorem encode?_eq_some_iff {bytes : Bytes} : layout.encode? a = some bytes ↔
    let size := (layout.write 0 a).outer.length
    (layout.write 0 a).fits (size + padding size) = true ∧
      (layout.write 0 a).outer ++ zeros (padding size) ++ (layout.write 0 a).inner (size + padding size) =
        bytes := by
  simp only [encode?, Option.ite_none_right_eq_some, Option.some.injEq, List.length_append, length_zeros]

theorem length_of_encode? (h : layout.Faithful a) {bytes : Bytes} (hb : layout.encode? a = some bytes) :
    bytes.length = layout.archiveSize a := by
  obtain ⟨-, hb⟩ := encode?_eq_some_iff.1 hb
  rw [← hb]
  simp only [archiveSize, List.length_append, length_zeros, h.length_inner]

theorem decode?_of_encode? (h : layout.Faithful a) {bytes : Bytes} (hb : layout.encode? a = some bytes) :
    layout.decode? bytes = some a := by
  have hlength := length_of_encode? h hb
  obtain ⟨hfits, hb⟩ := encode?_eq_some_iff.1 hb
  have hall := Holds.of_eq hb
  have hgap := le_add_padding (layout.write 0 a).outer.length
  have halign := mod_padding (layout.write 0 a).outer.length
  simp only [Holds.append_iff, List.length_append, length_zeros, Nat.zero_add, archiveSize] at hall hlength
  generalize (layout.write 0 a).outer.length + padding (layout.write 0 a).outer.length = start
    at hfits hall hlength hgap halign
  have hhigh : 0 + (layout.write 0 a).outer.length ≤ start :=
    Nat.le_trans (Nat.le_of_eq (Nat.zero_add _)) hgap
  have hread := h.read_write hfits hall.1.1 hall.2 hhigh
  simp only [decode?, List.size_toArray, hlength, Nat.add_sub_cancel, hread]
  rw [if_pos ⟨Nat.le_add_left _ _, halign⟩]
  rfl

/-- A small archive has room for all its lengths and pointers. -/
theorem exists_encode?_eq_some (h : layout.Faithful a) (hsize : layout.archiveSize a < wordCount 30) :
    ∃ bytes, layout.encode? a = some bytes := by
  simp only [archiveSize] at hsize
  exact ⟨_, encode?_eq_some_iff.2 ⟨h.fits (by omega) hsize, rfl⟩⟩

end

end ApiRules.Archive.Layout
