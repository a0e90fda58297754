import ApiRules.Proofs.Text.Cut
import ApiRules.Signature.Basic

/-!
The characters of canonical spellings: characters of names, and the marks that each kind of part has.
None of them is white space, and no part holds the marks that separate it from the parts beside it.
-/
namespace ApiRules

open Text

/-- The code points of white space. -/
def blankCodes : List Nat :=
  [0x20, 9, 10, 11, 12, 13, 0x85, 0xA0, 0x1680, 0x2000, 0x2001, 0x2002, 0x2003, 0x2004, 0x2005, 0x2006,
    0x2007, 0x2008, 0x2009, 0x200A, 0x2028, 0x2029, 0x202F, 0x205F, 0x3000]

theorem toNat_mem_blankCodes {c : Char} (h : isBlank c = true) : c.toNat ∈ blankCodes := by
  simp only [isBlank, Bool.or_eq_true, Bool.and_eq_true, beq_iff_eq, decide_eq_true_eq] at h
  simp only [blankCodes, List.mem_cons, List.not_mem_nil, or_false]
  omega

theorem isNameChar_blankCodes : ∀ n ∈ blankCodes, isNameChar (Char.ofNat n) = false := by
  decide +kernel

theorem isBlank_of_isNameChar {c : Char} (h : isNameChar c = true) : isBlank c = false := by
  apply Bool.eq_false_iff.2
  intro hb
  have hn := isNameChar_blankCodes c.toNat (toNat_mem_blankCodes hb)
  rw [Char.ofNat_toNat, h] at hn
  exact Bool.noConfusion hn

/-- A character of a name, or one of these marks. -/
def NameOr (marks : List Char) (c : Char) : Prop := isNameChar c = true ∨ c ∈ marks

instance (marks : List Char) (c : Char) : Decidable (NameOr marks c) :=
  inferInstanceAs (Decidable (isNameChar c = true ∨ c ∈ marks))

theorem NameOr.mono {marks more : List Char} {c : Char} (h : NameOr marks c) (hs : marks ⊆ more) :
    NameOr more c :=
  h.imp_right fun hm => hs hm

theorem NameOr.ne {marks : List Char} {c d : Char} (h : NameOr marks c) (hd : ¬NameOr marks d) : c ≠ d :=
  fun he => hd (he ▸ h)

theorem NameOr.not_blank {marks : List Char} {c : Char} (h : NameOr marks c)
    (hm : marks.any isBlank = false) : isBlank c = false := by
  obtain h | h := h
  · exact isBlank_of_isNameChar h
  · have hb := List.any_eq_false.1 hm c h
    simpa using hb

namespace Segment

theorem isNameChar_of_mem {s : Segment} {c : Char} (h : c ∈ s.chars) : isNameChar c = true := by
  have hs := s.isName_chars
  simp only [isName, Bool.and_eq_true, List.all_eq_true] at hs
  exact hs.2 c h

theorem chars_ne_nil (s : Segment) : s.chars ≠ [] := by
  have hs := s.isName_chars
  simp only [isName, Bool.and_eq_true, Bool.not_eq_true', List.isEmpty_eq_false_iff] at hs
  exact hs.1

theorem dot_not_mem_chars (s : Segment) : '.' ∉ s.chars := fun h => by
  have hn := isNameChar_of_mem h
  revert hn
  decide

end Segment

namespace Owner

variable {o : Owner} {c : Char}

theorem nameOr_of_mem (h : c ∈ o.chars) : NameOr ['.'] c := by
  obtain rfl | ⟨p, hp, hc⟩ := mem_joinWith h
  · exact .inr List.mem_cons_self
  · obtain ⟨s, -, rfl⟩ := List.mem_map.1 hp
    exact .inl (Segment.isNameChar_of_mem hc)

theorem not_mem_chars (h : ¬NameOr ['.'] c) : c ∉ o.chars := mt nameOr_of_mem h

theorem not_blank (h : c ∈ o.chars) : isBlank c = false := (nameOr_of_mem h).not_blank (by decide)

/-- The spelling of an owner ends in a character of a name, not in a dot. -/
theorem exists_chars_eq_append (o : Owner) :
    ∃ front c, o.chars = front ++ [c] ∧ isNameChar c = true := by
  have hne : o.segments.map Segment.chars ≠ [] := by simpa using o.segments_ne_nil
  obtain ⟨front, hf⟩ : ∃ front, joinWith '.' (o.segments.map Segment.chars) =
      front ++ (o.segments.map Segment.chars).getLast hne := exists_joinWith_eq_append hne
  obtain ⟨s, -, hs⟩ := List.mem_map.1 (List.getLast_mem hne)
  have hc := s.chars_ne_nil
  refine ⟨front ++ s.chars.dropLast, s.chars.getLast hc, ?_,
    Segment.isNameChar_of_mem (List.getLast_mem hc)⟩
  rw [chars, hf, ← hs, List.append_assoc, List.dropLast_concat_getLast]

theorem getLast?_chars_ne_dot (o : Owner) : o.chars.getLast? ≠ some '.' := by
  intro hl
  obtain ⟨front, c, hf, hc⟩ := o.exists_chars_eq_append
  rw [hf, List.getLast?_concat] at hl
  rw [Option.some.inj hl] at hc
  revert hc
  decide

theorem chars_ne_nil (o : Owner) : o.chars ≠ [] := by
  obtain ⟨front, c, h, -⟩ := exists_chars_eq_append o
  simp [h]

end Owner

namespace TypeName

variable {t : TypeName} {c : Char}

theorem nameOr_of_mem (h : c ∈ t.chars) : NameOr ['.', '[', ']'] c := by
  obtain h | h := List.mem_append.1 h
  · exact (Owner.nameOr_of_mem h).mono (by decide)
  · obtain ⟨p, hp, hc⟩ := List.mem_flatten.1 h
    rw [List.eq_of_mem_replicate hp] at hc
    exact .inr (List.mem_cons_of_mem '.' hc)

theorem not_mem_chars (h : ¬NameOr ['.', '[', ']'] c) : c ∉ t.chars := mt nameOr_of_mem h

theorem not_blank (h : c ∈ t.chars) : isBlank c = false := (nameOr_of_mem h).not_blank (by decide)

theorem chars_ne_nil (t : TypeName) : t.chars ≠ [] := by
  simp [chars, t.base.chars_ne_nil]

end TypeName

namespace MemberName

variable {n : MemberName} {c : Char}

theorem nameOr_of_mem (h : c ∈ n.chars) : NameOr ['$', '<', '>'] c := by
  have hn := n.isMemberName_chars
  simp only [isMemberName, Bool.or_eq_true, Bool.and_eq_true, beq_iff_eq, List.all_eq_true] at hn
  obtain (hi | hi) | ⟨-, ha⟩ := hn
  · simp only [hi, List.mem_cons, List.not_mem_nil, or_false] at h
    rcases h with rfl | rfl | rfl | rfl | rfl | rfl <;> decide
  · simp only [hi, List.mem_cons, List.not_mem_nil, or_false] at h
    rcases h with rfl | rfl | rfl | rfl | rfl | rfl | rfl | rfl <;> decide
  · obtain h | rfl := ha c h
    · exact .inl h
    · exact .inr List.mem_cons_self

theorem not_mem_chars (h : ¬NameOr ['$', '<', '>'] c) : c ∉ n.chars := mt nameOr_of_mem h

theorem not_blank (h : c ∈ n.chars) : isBlank c = false := (nameOr_of_mem h).not_blank (by decide)

end MemberName

namespace Member

variable {m : Member} {c : Char}

/-- The marks of members. -/
def marks : List Char := ['$', '<', '>', '(', ')', ',', '.', '[', ']']

theorem nameOr_of_mem (h : c ∈ m.chars) : NameOr marks c := by
  cases m with
  | field n => exact (MemberName.nameOr_of_mem h).mono (by decide)
  | method n ts =>
    simp only [chars, List.mem_append, List.mem_cons, List.not_mem_nil, or_false] at h
    obtain (h | rfl | h) | rfl := h
    · exact (MemberName.nameOr_of_mem h).mono (by decide)
    · decide
    · obtain rfl | ⟨p, hp, hc⟩ := mem_joinWith h
      · decide
      · obtain ⟨t, -, rfl⟩ := List.mem_map.1 hp
        exact (TypeName.nameOr_of_mem hc).mono (by decide)
    · decide

theorem not_blank (h : c ∈ m.chars) : isBlank c = false := (nameOr_of_mem h).not_blank (by decide)

end Member

namespace Signature

variable {s : Signature} {c : Char}

theorem nameOr_of_mem (h : c ∈ s.chars) : NameOr ('#' :: Member.marks) c := by
  unfold chars at h
  split at h
  · exact (Owner.nameOr_of_mem h).mono (by decide)
  · simp only [List.mem_append, List.mem_cons] at h
    obtain h | rfl | h := h
    · exact (Owner.nameOr_of_mem h).mono (by decide)
    · decide
    · exact (Member.nameOr_of_mem h).mono (by decide)

theorem not_mem_chars (h : ¬NameOr ('#' :: Member.marks) c) : c ∉ s.chars := mt nameOr_of_mem h

theorem not_blank (h : c ∈ s.chars) : isBlank c = false := (nameOr_of_mem h).not_blank (by decide)

theorem chars_ne_nil (s : Signature) : s.chars ≠ [] := by
  rw [chars]
  split
  · exact s.owner.chars_ne_nil
  · simp

end Signature

end ApiRules
