import ApiRules.Proofs.Signature.Canonical
import ApiRules.Proofs.Signature.Owner
import Mathlib.Data.List.Infix

/-!
Angle brackets in parameter lists. What is erased from a type and where a list is split depends on how many
brackets are open, and a text whose brackets balance leaves that number as it is.
-/
namespace ApiRules

open Text

/-- Every bracket that closes closes one that is open, and none stays open. -/
def Balanced (cs : List Char) : Prop :=
  (∀ p, p <+: cs → p.count '>' ≤ p.count '<') ∧ cs.count '>' = cs.count '<'

instance (cs : List Char) : Decidable (Balanced cs) :=
  decidable_of_iff ((∀ p ∈ cs.inits, p.count '>' ≤ p.count '<') ∧ cs.count '>' = cs.count '<')
    (and_congr_left' (forall_congr' fun p => by rw [List.mem_inits]))

/-- No more than `room` brackets are open at once. -/
def NestedWithin (room : Nat) (cs : List Char) : Prop := ∀ p, p <+: cs → p.count '<' ≤ room + p.count '>'

section
variable {room : Nat} {a b g : List Char} {c : Char}

theorem nestedWithin_of_count_le (h : a.count '<' ≤ room) : NestedWithin room a := fun _ hp =>
  Nat.le_add_right_of_le ((hp.sublist.count_le '<').trans h)

theorem nestedWithin_append (ha : Balanced a) :
    NestedWithin room (a ++ b) ↔ NestedWithin room a ∧ NestedWithin room b := by
  constructor
  · intro h
    refine ⟨fun p hp => h p (hp.trans (List.prefix_append a b)), fun p hp => ?_⟩
    have hp := h (a ++ p) ((List.prefix_append_right_inj a).2 hp)
    have hcount := ha.2
    rw [List.count_append, List.count_append] at hp
    omega
  · rintro ⟨h, h'⟩ p hp
    obtain hp | ⟨q, rfl, hq⟩ := Sequences.prefix_append_iff.1 hp
    · exact h p hp
    · have hq := h' q hq
      have hcount := ha.2
      rw [List.count_append, List.count_append]
      omega

theorem Balanced.append (ha : Balanced a) (hb : Balanced b) : Balanced (a ++ b) := by
  refine ⟨fun p hp => ?_, by rw [List.count_append, List.count_append, ha.2, hb.2]⟩
  obtain hp | ⟨q, rfl, hq⟩ := Sequences.prefix_append_iff.1 hp
  · exact ha.1 p hp
  · have hq := hb.1 q hq
    have hcount := ha.2
    rw [List.count_append, List.count_append]
    omega

theorem balanced_of_forall_ne (h : ∀ c ∈ a, c ≠ '<' ∧ c ≠ '>') : Balanced a := by
  have hl : a.count '<' = 0 := List.count_eq_zero.2 fun hm => (h '<' hm).1 rfl
  have hr : a.count '>' = 0 := List.count_eq_zero.2 fun hm => (h '>' hm).2 rfl
  refine ⟨fun p hp => ?_, hr.trans hl.symm⟩
  have hle := hp.sublist.count_le '>'
  omega

theorem balanced_singleton (hl : c ≠ '<') (hr : c ≠ '>') : Balanced [c] :=
  balanced_of_forall_ne (List.forall_mem_singleton.2 ⟨hl, hr⟩)

/-- A pair of brackets with a text between them. -/
def bracketed (g : List Char) : List Char := '<' :: (g ++ ['>'])

theorem bracketed_append (g rest : List Char) : bracketed g ++ rest = '<' :: (g ++ '>' :: rest) := by
  simp [bracketed]

theorem Balanced.bracketed (hg : Balanced g) : Balanced (bracketed g) := by
  refine ⟨fun p hp => ?_, by simp [ApiRules.bracketed, hg.2]⟩
  obtain rfl | ⟨q, rfl, hq⟩ := List.prefix_cons_iff.1 hp
  · exact Nat.zero_le _
  · obtain hq | ⟨q, rfl, hq⟩ := Sequences.prefix_append_iff.1 hq
    · have hq := hg.1 q hq
      simp
      omega
    · have hq := hq.sublist.count_le '>'
      have hcount := hg.2
      simp at hq ⊢
      omega

theorem NestedWithin.of_bracketed (h : NestedWithin room (bracketed g)) : NestedWithin (room - 1) g := by
  intro p hp
  have hp := h ('<' :: p) (List.cons_prefix_cons.2 ⟨rfl, hp.trans (List.prefix_append g ['>'])⟩)
  simp at hp
  omega

/-- So many pairs of brackets, each of them in the one before it. -/
def nested : Nat → List Char
  | 0 => []
  | n + 1 => bracketed (nested n)

theorem balanced_nested (n : Nat) : Balanced (nested n) := by
  induction n with
  | zero => exact balanced_of_forall_ne nofun
  | succ n ih => exact ih.bracketed

theorem isBlankText_nested {n : Nat} (h : n ≠ 0) : isBlankText (nested n) = false := by
  cases n with
  | zero => exact absurd rfl h
  | succ n => rfl

theorem not_nestedWithin_nested {n : Nat} (h : room < n) : ¬NestedWithin room (nested n) := by
  induction n generalizing room with
  | zero => cases h
  | succ n ih =>
    intro hn
    cases room with
    | zero =>
      have hle := hn ['<'] (List.cons_prefix_cons.2 ⟨rfl, List.nil_prefix⟩)
      exact absurd hle (by decide)
    | succ room => exact ih (Nat.lt_of_succ_lt_succ h) hn.of_bracketed

theorem not_nestedWithin_bracketed {n : Nat} (h : room ≤ n) : ¬NestedWithin room (bracketed (nested n)) :=
  @not_nestedWithin_nested room (n + 1) (Nat.lt_succ_of_le h)

end

/-- The brackets of a text balance, and there is always a word for the number of those that are open. -/
structure Counted (cs : List Char) : Prop where
  balanced : Balanced cs
  nested : NestedWithin Nesting.max cs

namespace Counted

variable {a b : List Char}

theorem of_forall_ne (h : ∀ c ∈ a, c ≠ '<' ∧ c ≠ '>') : Counted a where
  balanced := balanced_of_forall_ne h
  nested := by
    have hl : a.count '<' = 0 := List.count_eq_zero.2 fun hm => (h '<' hm).1 rfl
    exact nestedWithin_of_count_le (hl ▸ Nat.zero_le Nesting.max)

theorem singleton {c : Char} (hl : c ≠ '<') (hr : c ≠ '>') : Counted [c] :=
  of_forall_ne (List.forall_mem_singleton.2 ⟨hl, hr⟩)

theorem nestedWithin_append_iff (ha : Counted a) :
    NestedWithin Nesting.max (a ++ b) ↔ NestedWithin Nesting.max b :=
  (nestedWithin_append ha.balanced).trans (and_iff_right ha.nested)

theorem append (ha : Counted a) (hb : Counted b) : Counted (a ++ b) where
  balanced := ha.balanced.append hb.balanced
  nested := ha.nestedWithin_append_iff.2 hb.nested

end Counted

/-- The text closes `depth` brackets and all that it opens itself, and never has more than `room` of them open. -/
inductive Closes (room : Nat) : Nat → List Char → Prop where
  | nil : Closes room 0 []
  | cons {depth next : Nat} {c : Char} {cs : List Char} (hc : Nesting.Step room depth c next)
      (h : Closes room next cs) : Closes room depth (c :: cs)

variable {room depth : Nat} {cs g rest : List Char}

theorem closes_of_count
    (h : ∀ p, p <+: cs → p.count '>' ≤ depth + p.count '<' ∧ depth + p.count '<' ≤ room + p.count '>')
    (ht : cs.count '>' = depth + cs.count '<') : Closes room depth cs := by
  induction cs generalizing depth with
  | nil =>
    obtain rfl : depth = 0 := by simpa [eq_comm] using ht
    exact .nil
  | cons c cs ih =>
    have hcons : ∀ p, p <+: cs → (c :: p).count '>' ≤ depth + (c :: p).count '<' ∧
        depth + (c :: p).count '<' ≤ room + (c :: p).count '>' := fun p hp =>
      h (c :: p) (List.cons_prefix_cons.2 ⟨rfl, hp⟩)
    obtain ⟨hle, hroom⟩ := hcons [] List.nil_prefix
    obtain ⟨next, hc⟩ := Nesting.Step.exists_of_count hle hroom
    refine .cons hc (ih (fun p hp => ?_) ?_)
    · have hcount := hc.count p
      have hp := hcons p hp
      omega
    · have hcount := hc.count cs
      omega

theorem Closes.count_eq (h : Closes room depth cs) : cs.count '>' = depth + cs.count '<' := by
  induction h with
  | nil => rfl
  | @cons depth next c cs hc _ ih =>
    have hcount := hc.count cs
    omega

theorem Closes.count_le (h : Closes room depth cs) (hd : depth ≤ room) {p : List Char} (hp : p <+: cs) :
    p.count '>' ≤ depth + p.count '<' ∧ depth + p.count '<' ≤ room + p.count '>' := by
  induction h generalizing p with
  | nil =>
    rw [List.prefix_nil.1 hp]
    exact ⟨Nat.zero_le _, Nat.zero_le _⟩
  | cons hc _ ih =>
    obtain rfl | ⟨q, rfl, hq⟩ := List.prefix_cons_iff.1 hp
    · exact ⟨Nat.zero_le _, hd⟩
    · have hle := ih (hc.le hd) hq
      have hcount := hc.count q
      omega

theorem closes_iff : Closes room 0 cs ↔ Balanced cs ∧ NestedWithin room cs := by
  constructor
  · intro h
    have hcount := fun p hp => h.count_le (Nat.zero_le room) (p := p) hp
    simp only [Nat.zero_add] at hcount
    exact ⟨⟨fun p hp => (hcount p hp).1, by simpa using h.count_eq⟩, fun p hp => (hcount p hp).2⟩
  · rintro ⟨⟨hle, heq⟩, hroom⟩
    exact closes_of_count (fun p hp => by simpa using ⟨hle p hp, hroom p hp⟩) (by simpa using heq)

theorem closes_max_iff : Closes Nesting.max 0 cs ↔ Counted cs :=
  closes_iff.trans ⟨fun h => ⟨h.1, h.2⟩, fun h => ⟨h.balanced, h.nested⟩⟩

/-- Some bracket closes none that is open, or the numbers of both kinds of brackets differ. -/
def Unbalanced (cs : List Char) : Prop :=
  (∃ p, p <+: cs ∧ p.count '<' < p.count '>') ∨ cs.count '<' ≠ cs.count '>'

theorem unbalanced_iff : Unbalanced cs ↔ ¬Balanced cs := by
  simp only [Unbalanced, Balanced, not_and_or, not_forall, not_le, exists_prop, ne_comm (a := cs.count '<')]

theorem not_counted_iff : ¬Counted cs ↔ Unbalanced cs ∨ ¬NestedWithin Nesting.max cs := by
  rw [unbalanced_iff, ← not_and_or]
  exact not_congr ⟨fun h => ⟨h.balanced, h.nested⟩, fun h => ⟨h.1, h.2⟩⟩

namespace TypeName

/-- Between brackets nothing is kept. -/
theorem erase?_append_of_closes (h : Closes room depth g) (hroom : room < Nesting.max) (hd : depth ≤ room) :
    erase? (.ofNat (depth + 1)) (g ++ rest) = erase? (.ofNat 1) rest := by
  induction h with
  | nil => rfl
  | @cons n m c cs hc _ ih =>
    have hle : n + 1 ≤ Nesting.max := Nat.lt_of_le_of_lt hd hroom
    have hne : Int32.ofNat (n + 1) ≠ 0 := mt (Nesting.ofNat_eq_zero_iff hle).1 (Nat.succ_ne_zero n)
    rw [← ih (hc.le hd), List.cons_append]
    by_cases hb : isBlank c = true
    · have hm : m = n := hc.eq_of_ne (ne_of_isBlank hb rfl) (ne_of_isBlank hb rfl)
      rw [erase?, if_pos hb, hm]
    · have hnext := (Nesting.next?_eq_some_iff hle).2 ⟨m + 1, hc.succ hroom, rfl⟩
      rw [erase?_cons (by simpa using hb) hnext, if_pos (.inr (.inr hne))]

theorem erase?_group (h : Balanced g) (hn : NestedWithin (Nesting.max - 1) g) :
    erase? 0 ('<' :: (g ++ '>' :: rest)) = erase? 0 rest := by
  calc erase? 0 ('<' :: (g ++ '>' :: rest))
      = erase? (.ofNat 1) (g ++ '>' :: rest) := rfl
    _ = erase? (.ofNat 1) ('>' :: rest) := erase?_append_of_closes (closes_iff.2 ⟨h, hn⟩) (by decide) (Nat.zero_le _)
    _ = erase? 0 rest := rfl

variable {raw plain : List Char}

theorem closes_of_erase? (hd : depth ≤ Nesting.max) (h : erase? (.ofNat depth) raw = some plain) :
    Closes Nesting.max depth raw := by
  induction raw generalizing depth plain with
  | nil =>
    have hzero : Int32.ofNat depth = 0 := by
      by_contra hne
      rw [erase?, if_neg hne] at h
      cases h
    obtain rfl := (Nesting.ofNat_eq_zero_iff hd).1 hzero
    exact .nil
  | cons c raw ih =>
    by_cases hb : isBlank c = true
    · rw [erase?, if_pos hb] at h
      exact .cons (.other (ne_of_isBlank hb rfl) (ne_of_isBlank hb rfl)) (ih hd h)
    · cases hnext : Nesting.next? (.ofNat depth) c with
      | none =>
        rw [erase?, if_neg hb, hnext] at h
        cases h
      | some next =>
        obtain ⟨m, hc, rfl⟩ := (Nesting.next?_eq_some_iff hd).1 hnext
        rw [erase?_cons (by simpa using hb) hnext] at h
        split at h
        · exact .cons hc (ih (hc.le hd) h)
        · obtain ⟨rest, hrest, -⟩ := Option.map_eq_some_iff.1 h
          exact .cons hc (ih (hc.le hd) hrest)

theorem exists_erase?_of_closes (hd : depth ≤ Nesting.max) (h : Closes Nesting.max depth raw) :
    ∃ plain, erase? (.ofNat depth) raw = some plain := by
  induction h with
  | nil => exact ⟨[], rfl⟩
  | @cons n m c raw hc _ ih =>
    obtain ⟨plain, hplain⟩ := ih (hc.le hd)
    by_cases hb : isBlank c = true
    · have hm : m = n := hc.eq_of_ne (ne_of_isBlank hb rfl) (ne_of_isBlank hb rfl)
      exact ⟨plain, by rw [erase?, if_pos hb, ← hm, hplain]⟩
    · rw [erase?_cons (by simpa using hb) ((Nesting.next?_eq_some_iff hd).2 ⟨m, hc, rfl⟩), hplain]
      split
      · exact ⟨plain, rfl⟩
      · exact ⟨c :: plain, rfl⟩

theorem exists_erase?_iff : (∃ plain, erase? 0 raw = some plain) ↔ Counted raw := by
  rw [← closes_max_iff]
  constructor
  · rintro ⟨plain, h⟩
    exact closes_of_erase? (Nat.zero_le _) h
  · exact exists_erase?_of_closes (Nat.zero_le _)

end TypeName

/-- A list is not split at the commas that are erased from a type. -/
theorem splitParams?_of_erase? {raw plain : List Char} {depth : Int32} (hd : 0 ≤ depth)
    (h : TypeName.erase? depth raw = some plain) (hc : ',' ∉ plain) : splitParams? depth raw = some [raw] := by
  induction raw generalizing depth plain with
  | nil =>
    rw [TypeName.erase?] at h
    rw [splitParams?]
    split at h
    next hzero => rw [if_pos hzero]
    · cases h
  | cons c raw ih =>
    by_cases hb : isBlank c = true
    · have hnext := Nesting.next?_other hd (ne_of_isBlank hb rfl) (ne_of_isBlank hb rfl)
      rw [TypeName.erase?, if_pos hb] at h
      rw [splitParams?_cons (fun hcomma => ne_of_isBlank hb rfl hcomma.1) hnext, ih hd h hc]
      rfl
    · cases hnext : Nesting.next? depth c with
      | none =>
        rw [TypeName.erase?, if_neg hb, hnext] at h
        cases h
      | some next =>
        have hd' := Nesting.nonneg_of_next? hnext
        rw [TypeName.erase?_cons (by simpa using hb) hnext] at h
        split at h
        next hinside =>
          have hcomma : ¬(c = ',' ∧ depth = 0) := by
            rintro ⟨rfl, hzero⟩
            simp [hzero] at hinside
          rw [splitParams?_cons hcomma hnext, ih hd' h hc]
          rfl
        · -- outside brackets the character is kept, so it is no comma
          obtain ⟨rest, hrest, rfl⟩ := Option.map_eq_some_iff.1 h
          simp only [List.mem_cons, not_or] at hc
          rw [splitParams?_cons (fun hcomma => hc.1 hcomma.1.symm) hnext, ih hd' hrest hc.2]
          rfl

namespace TypeName

theorem erase?_of_isBlankText {raw : List Char} (h : isBlankText raw = true) : erase? 0 raw = some [] := by
  induction raw with
  | nil => rfl
  | cons c raw ih =>
    obtain ⟨hc, hraw⟩ := Bool.and_eq_true_iff.1 h
    rw [erase?, if_pos hc, ih hraw]

theorem mem_peelBrackets {c : Char} (h : c ∈ cs) (hm : c ∉ ['[', ']']) : c ∈ (peelBrackets cs).2 := by
  fun_induction peelBrackets cs with
  | case1 cs ih =>
    simp only [List.mem_cons, List.not_mem_nil, or_false, not_or] at h hm
    exact ih ((h.resolve_left hm.2).resolve_left hm.1)
  | case2 cs => exact h

/-- What is no mark of dimensions is not peeled off. -/
theorem mem_peel {c : Char} (h : c ∈ cs) (hm : c ∉ ['.', '[', ']']) : c ∈ (peel cs).2 := by
  have hr : c ∈ cs.reverse := List.mem_reverse.2 h
  have hbrackets : c ∉ ['[', ']'] := fun hc => hm (List.mem_cons_of_mem '.' hc)
  rw [peel]
  split
  · rename_i rest he
    have hdot : c ≠ '.' := fun hc => hm (hc ▸ List.mem_cons_self)
    have hrest : c ∈ rest := by simpa [he, hdot] using hr
    exact List.mem_reverse.2 (mem_peelBrackets hrest hbrackets)
  · exact List.mem_reverse.2 (mem_peelBrackets hr hbrackets)

section
variable {raw : List Char} {t : TypeName} (h : parse raw = .ok t)
include h

theorem exists_erase?_of_parse :
    ∃ plain, erase? 0 raw = some plain ∧ Owner.ofChars? (peel plain).2 = some t.base := by
  rw [parse] at h
  split at h
  · rename_i t' ht
    obtain rfl := Except.ok.inj h
    simp only [ofSource?, Option.bind_eq_bind, Option.bind_eq_some_iff, Option.pure_def, Option.some.injEq] at ht
    obtain ⟨plain, hp, base, hb, rfl⟩ := ht
    exact ⟨plain, hp, hb⟩
  · cases h

/-- The commas of a type stand in brackets, so that a list is not split at them. -/
theorem splitParams?_of_parse : splitParams? 0 raw = some [raw] := by
  obtain ⟨plain, hp, hb⟩ := exists_erase?_of_parse h
  exact splitParams?_of_erase? (Int32.le_refl 0) hp fun hc =>
    Owner.comma_not_mem_of_ofChars? hb (mem_peel hc (by decide))

theorem isBlankText_of_parse : isBlankText raw = false := by
  obtain ⟨plain, hp, hb⟩ := exists_erase?_of_parse h
  refine Bool.eq_false_iff.2 fun hblank => ?_
  obtain rfl := Option.some.inj ((erase?_of_isBlankText hblank).symm.trans hp)
  cases hb

end

end TypeName

end ApiRules
