import ApiRules.Proofs.Text.Cut
import Mathlib.Data.List.DropRight

/-!
What trimming leaves of a text: every character that is no white space, and an ending without white space as
it is.
-/
namespace ApiRules.Text

variable {cs : List Char}

theorem ne_of_isBlank {c d : Char} (hc : isBlank c = true) (hd : isBlank d = false) : c ≠ d := by
  rintro rfl
  cases hc.symm.trans hd

theorem mem_trimLeft {c : Char} (h : c ∈ cs) (hc : isBlank c = false) : c ∈ trimLeft cs := by
  rw [← List.takeWhile_append_dropWhile (p := isBlank) (l := cs)] at h
  obtain h | h := List.mem_append.1 h
  · rw [List.mem_takeWhile_imp h] at hc
    cases hc
  · exact h

theorem mem_trim {c : Char} (h : c ∈ cs) (hc : isBlank c = false) : c ∈ trim cs :=
  List.mem_reverse.2 (mem_trimLeft (List.mem_reverse.2 (mem_trimLeft h hc)) hc)

theorem mem_of_mem_trimLeft {c : Char} (h : c ∈ trimLeft cs) : c ∈ cs :=
  (List.dropWhile_sublist isBlank).subset h

theorem mem_of_mem_trimRight {c : Char} (h : c ∈ trimRight cs) : c ∈ cs :=
  List.mem_reverse.1 (mem_of_mem_trimLeft (List.mem_reverse.1 h))

theorem mem_of_mem_trim {c : Char} (h : c ∈ trim cs) : c ∈ cs :=
  mem_of_mem_trimLeft (mem_of_mem_trimRight h)

theorem trim_trimLeft (cs : List Char) : trim (trimLeft cs) = trim cs := by
  rw [trim, trim, trimLeft, trimLeft, List.dropWhile_idempotent]

theorem trimLeft_append_cons {l r : List Char} {c : Char} (hc : isBlank c = false) :
    trimLeft (l ++ c :: r) = trimLeft l ++ c :: r := by
  have hcons : (c :: r).dropWhile isBlank = c :: r := List.dropWhile_cons_of_neg (by simp [hc])
  rw [trimLeft, trimLeft, List.dropWhile_append, hcons]
  split
  · rename_i hl
    rw [List.isEmpty_iff.1 hl, List.nil_append]
  · rfl

theorem trimRight_append_cons {l r : List Char} {c : Char} (hc : isBlank c = false) :
    trimRight (l ++ c :: r) = l ++ c :: trimRight r := by
  have hr : (l ++ c :: r).reverse = r.reverse ++ c :: l.reverse := by simp
  have ht := trimLeft_append_cons (l := r.reverse) (r := l.reverse) hc
  rw [trimLeft, trimLeft] at ht
  rw [trimRight, hr, ht, trimRight]
  simp

/-- Around a character that is no white space the two sides are trimmed by themselves. -/
theorem trim_append_cons {l r : List Char} {c : Char} (hc : isBlank c = false) :
    trim (l ++ c :: r) = trimLeft l ++ c :: trimRight r := by
  rw [trim, trimLeft_append_cons hc, trimRight_append_cons hc]

theorem trim_append {ending : List Char} (hne : ending ≠ []) (h : ∀ c ∈ ending, isBlank c = false) :
    trim (cs ++ ending) = trimLeft cs ++ ending := by
  obtain ⟨c, rest, rfl⟩ := List.exists_cons_of_ne_nil hne
  have hrest : trimRight rest = rest := trimRight_eq_self fun d hd => h d (List.mem_cons_of_mem c hd)
  rw [trim_append_cons (h c List.mem_cons_self), hrest]

theorem trim_of_isBlankText (h : isBlankText cs = true) : trim cs = [] := by
  have hl : trimLeft cs = [] := List.dropWhile_eq_nil_iff.2 (List.all_eq_true.1 h)
  rw [trim, hl]
  rfl

theorem exists_append_cons_of_isBlankText (h : isBlankText cs = false) :
    ∃ l c r, cs = l ++ c :: r ∧ isBlank c = false := by
  obtain ⟨c, hm, hc⟩ := List.all_eq_false.1 h
  obtain ⟨l, r, rfl⟩ := List.append_of_mem hm
  exact ⟨l, c, r, rfl, by simpa using hc⟩

theorem isBlankText_trimRight (cs : List Char) : isBlankText (trimRight cs) = isBlankText cs := by
  have ht : (cs.reverse.takeWhile isBlank).all isBlank = true :=
    List.all_eq_true.2 fun c hc => List.mem_takeWhile_imp hc
  calc (trimRight cs).all isBlank
      = (cs.reverse.dropWhile isBlank).all isBlank := List.all_reverse
    _ = (cs.reverse.takeWhile isBlank ++ cs.reverse.dropWhile isBlank).all isBlank := by
        rw [List.all_append, ht, Bool.true_and]
    _ = cs.all isBlank := by rw [List.takeWhile_append_dropWhile, List.all_reverse]

theorem trim_trimRight (cs : List Char) : trim (trimRight cs) = trim cs := by
  cases hb : isBlankText cs with
  | true => rw [trim_of_isBlankText hb, trim_of_isBlankText ((isBlankText_trimRight cs).trans hb)]
  | false =>
    obtain ⟨l, c, r, rfl, hc⟩ := exists_append_cons_of_isBlankText hb
    have hr : trimRight (trimRight r) = trimRight r := by
      rw [trimRight, trimRight, List.reverse_reverse, List.dropWhile_idempotent]
    rw [trimRight_append_cons hc, trim_append_cons hc, trim_append_cons hc, hr]

/-- White space around a text does not change what trimming leaves of it. -/
theorem trim_padded {before after : List Char} (hb : isBlankText before = true) (ha : isBlankText after = true) :
    trim (before ++ (cs ++ after)) = trim cs := by
  have hleft : trim (before ++ (cs ++ after)) = trim (cs ++ after) := by
    rw [trim, trim, trimLeft, trimLeft, List.dropWhile_append_of_pos (List.all_eq_true.1 hb)]
  have hright : trimRight (cs ++ after) = trimRight cs := by
    have ha : ∀ c ∈ after.reverse, isBlank c = true := fun c hc =>
      List.all_eq_true.1 ha c (List.mem_reverse.1 hc)
    rw [trimRight, trimRight, List.reverse_append, List.dropWhile_append_of_pos ha]
  rw [hleft, ← trim_trimRight (cs ++ after), hright, trim_trimRight]

theorem trim_trim (cs : List Char) : trim (trim cs) = trim cs :=
  (trim_trimRight (trimLeft cs)).trans (trim_trimLeft cs)

end ApiRules.Text
