import ApiRules.Text.Blank
import ApiRules.Text.Cut

/-!
Cutting undoes joining, for parts that do not hold the separator.
-/
namespace ApiRules.Text

variable {sep : Char} {l r cs : List Char} {ps : List (List Char)}

theorem cut?_append (h : sep ∉ l) : cut? sep (l ++ sep :: r) = some (l, r) := by
  induction l with
  | nil => simp [cut?]
  | cons c l ih =>
    simp only [List.mem_cons, not_or] at h
    simp [cut?, Ne.symm h.1, ih h.2]

theorem cut?_eq_none (h : sep ∉ cs) : cut? sep cs = none := by
  induction cs with
  | nil => rfl
  | cons c cs ih =>
    simp only [List.mem_cons, not_or] at h
    simp [cut?, Ne.symm h.1, ih h.2]

theorem cut?_eq_some : cut? sep cs = some (l, r) ↔ cs = l ++ sep :: r ∧ sep ∉ l := by
  constructor
  · intro h
    induction cs generalizing l with
    | nil => cases h
    | cons c cs ih =>
      rw [cut?] at h
      split at h
      · rename_i hc
        obtain ⟨rfl, rfl⟩ := Prod.mk.inj (Option.some.inj h)
        exact ⟨hc ▸ rfl, List.not_mem_nil⟩
      · rename_i hc
        obtain ⟨⟨front, back⟩, hf, he⟩ := Option.map_eq_some_iff.1 h
        obtain ⟨rfl, rfl⟩ := Prod.mk.inj he
        obtain ⟨rfl, hl⟩ := ih hf
        exact ⟨rfl, by simp [Ne.symm hc, hl]⟩
  · rintro ⟨rfl, h⟩
    exact cut?_append h

theorem cutLast?_eq_none (h : sep ∉ cs) : cutLast? sep cs = none := by
  induction cs with
  | nil => rfl
  | cons c cs ih =>
    simp only [List.mem_cons, not_or] at h
    simp [cutLast?, Ne.symm h.1, ih h.2]

theorem cutLast?_append (h : sep ∉ r) : cutLast? sep (l ++ sep :: r) = some (l, r) := by
  induction l with
  | nil => simp [cutLast?, cutLast?_eq_none h]
  | cons c l ih => simp [cutLast?, ih]

theorem not_mem_of_cutLast?_eq_none (h : cutLast? sep cs = none) : sep ∉ cs := by
  induction cs with
  | nil => exact List.not_mem_nil
  | cons c cs ih =>
    rw [cutLast?] at h
    cases hc : cutLast? sep cs with
    | none =>
      rw [hc] at h
      have hs : c ≠ sep := fun hs => by simp [hs] at h
      simp [Ne.symm hs, ih hc]
    | some parts =>
      rw [hc] at h
      cases h

theorem cutLast?_eq_some : cutLast? sep cs = some (l, r) ↔ cs = l ++ sep :: r ∧ sep ∉ r := by
  constructor
  · intro h
    induction cs generalizing l with
    | nil => cases h
    | cons c cs ih =>
      rw [cutLast?] at h
      cases hc : cutLast? sep cs with
      | none =>
        rw [hc] at h
        by_cases hs : c = sep
        · rw [if_pos hs] at h
          obtain ⟨rfl, rfl⟩ := Prod.mk.inj (Option.some.inj h)
          exact ⟨hs ▸ rfl, not_mem_of_cutLast?_eq_none hc⟩
        · rw [if_neg hs] at h
          cases h
      | some parts =>
        obtain ⟨front, back⟩ := parts
        rw [hc] at h
        obtain ⟨rfl, rfl⟩ := Prod.mk.inj (Option.some.inj h)
        obtain ⟨rfl, hr⟩ := ih hc
        exact ⟨rfl, hr⟩
  · rintro ⟨rfl, h⟩
    exact cutLast?_append h

theorem joinWith_eq_intercalate (sep : Char) (ps : List (List Char)) :
    joinWith sep ps = [sep].intercalate ps := by
  induction ps with
  | nil => rfl
  | cons p ps ih =>
    cases ps with
    | nil => exact List.intercalate_singleton.symm
    | cons q ps =>
      have hj : joinWith sep (p :: q :: ps) = p ++ sep :: joinWith sep (q :: ps) := rfl
      rw [hj, ih, List.intercalate_cons_cons, List.append_assoc, List.singleton_append]

theorem splitOn_of_not_mem (h : sep ∉ cs) : splitOn sep cs = [cs] := by
  induction cs with
  | nil => rfl
  | cons c cs ih =>
    simp only [List.mem_cons, not_or] at h
    simp [splitOn, Ne.symm h.1, ih h.2]

theorem splitOn_ne_nil (sep : Char) (cs : List Char) : splitOn sep cs ≠ [] := by
  cases cs with
  | nil => exact List.cons_ne_nil _ _
  | cons c cs =>
    rw [splitOn]
    split
    · exact List.cons_ne_nil _ _
    · split
      · exact List.cons_ne_nil _ _
      · exact List.cons_ne_nil _ _

/-- The parts before a separator, and the parts after it. -/
theorem splitOn_append_cons (sep : Char) (l r : List Char) :
    splitOn sep (l ++ sep :: r) = splitOn sep l ++ splitOn sep r := by
  induction l with
  | nil => simp [splitOn]
  | cons c l ih =>
    by_cases hc : c = sep
    · simp [splitOn, hc, ih]
    · obtain ⟨p, ps, hps⟩ := List.exists_cons_of_ne_nil (splitOn_ne_nil sep l)
      simp [splitOn, hc, ih, hps]

theorem splitOn_append (h : sep ∉ l) : splitOn sep (l ++ sep :: r) = l :: splitOn sep r := by
  rw [splitOn_append_cons, splitOn_of_not_mem h, List.singleton_append]

theorem splitOn_cases (sep : Char) (cs : List Char) :
    (sep ∉ cs ∧ splitOn sep cs = [cs]) ∨
    ∃ first rest, cs = first ++ sep :: rest ∧ sep ∉ first ∧ splitOn sep cs = first :: splitOn sep rest := by
  by_cases hm : sep ∈ cs
  · obtain ⟨first, rest, rfl, hfirst⟩ := List.eq_append_cons_of_mem hm
    exact .inr ⟨first, rest, rfl, hfirst, splitOn_append hfirst⟩
  · exact .inl ⟨hm, splitOn_of_not_mem hm⟩

theorem length_splitOn (sep : Char) (cs : List Char) : (splitOn sep cs).length = cs.count sep + 1 := by
  induction cs with
  | nil => rfl
  | cons c cs ih =>
    by_cases hc : c = sep
    · simp [splitOn, hc, ih]
    · obtain ⟨p, ps, hps⟩ := List.exists_cons_of_ne_nil (splitOn_ne_nil sep cs)
      rw [hps] at ih
      simp [splitOn, hc, hps, ← ih]

theorem splitOn_joinWith (hne : ps ≠ []) (h : ∀ p ∈ ps, sep ∉ p) :
    splitOn sep (joinWith sep ps) = ps := by
  induction ps with
  | nil => exact absurd rfl hne
  | cons p ps ih =>
    have hp := h p List.mem_cons_self
    cases ps with
    | nil => exact splitOn_of_not_mem hp
    | cons q ps =>
      have hqs := ih (List.cons_ne_nil q ps) fun x hx => h x (List.mem_cons_of_mem p hx)
      rw [joinWith, splitOn_append hp, hqs]
      exact List.cons_ne_nil q ps

theorem joinWith_concat (hne : ps ≠ []) (p : List Char) :
    joinWith sep (ps ++ [p]) = joinWith sep ps ++ sep :: p := by
  induction ps with
  | nil => exact absurd rfl hne
  | cons q ps ih =>
    cases ps with
    | nil => rfl
    | cons r ps =>
      have hj : ∀ qs, joinWith sep (q :: r :: qs) = q ++ sep :: joinWith sep (r :: qs) := fun _ => rfl
      rw [List.cons_append, List.cons_append, hj, hj, ← List.cons_append, ih (List.cons_ne_nil r ps),
        List.append_assoc, List.cons_append]

/-- What does not separate stands in one of the parts. -/
theorem mem_splitOn {c : Char} (h : c ∈ cs) (hc : c ≠ sep) : ∃ p ∈ splitOn sep cs, c ∈ p := by
  induction cs with
  | nil => cases h
  | cons d cs ih =>
    rw [splitOn]
    split
    · rename_i hd
      obtain rfl | h := List.mem_cons.1 h
      · exact absurd hd hc
      · obtain ⟨p, hp, hcp⟩ := ih h
        exact ⟨p, List.mem_cons_of_mem _ hp, hcp⟩
    · split
      · rename_i hs
        obtain rfl | h := List.mem_cons.1 h
        · exact ⟨[c], List.mem_cons_self, List.mem_cons_self⟩
        · obtain ⟨p, hp, -⟩ := ih h
          rw [hs] at hp
          cases hp
      · rename_i q qs hs
        obtain rfl | h := List.mem_cons.1 h
        · exact ⟨c :: q, List.mem_cons_self, List.mem_cons_self⟩
        · obtain ⟨p, hp, hcp⟩ := ih h
          rw [hs] at hp
          obtain rfl | hp := List.mem_cons.1 hp
          · exact ⟨d :: p, List.mem_cons_self, List.mem_cons_of_mem d hcp⟩
          · exact ⟨p, List.mem_cons_of_mem _ hp, hcp⟩

theorem mem_joinWith {c : Char} (h : c ∈ joinWith sep ps) : c = sep ∨ ∃ p ∈ ps, c ∈ p := by
  induction ps with
  | nil => simp [joinWith] at h
  | cons p ps ih =>
    cases ps with
    | nil => exact .inr ⟨p, List.mem_cons_self, h⟩
    | cons q ps =>
      obtain h | h := List.mem_append.1 h
      · exact .inr ⟨p, List.mem_cons_self, h⟩
      · obtain rfl | h := List.mem_cons.1 h
        · exact .inl rfl
        · obtain h | ⟨x, hx, hc⟩ := ih h
          · exact .inl h
          · exact .inr ⟨x, List.mem_cons_of_mem p hx, hc⟩

/-- A joined text ends as its last part does. -/
theorem exists_joinWith_eq_append (hne : ps ≠ []) :
    ∃ front, joinWith sep ps = front ++ ps.getLast hne := by
  induction ps with
  | nil => exact absurd rfl hne
  | cons p ps ih =>
    cases ps with
    | nil => exact ⟨[], rfl⟩
    | cons q ps =>
      obtain ⟨front, hf⟩ := ih (List.cons_ne_nil q ps)
      refine ⟨p ++ sep :: front, ?_⟩
      have hj : joinWith sep (p :: q :: ps) = p ++ sep :: joinWith sep (q :: ps) := rfl
      rw [hj, hf, List.getLast_cons (List.cons_ne_nil q ps), List.append_assoc, List.cons_append]

theorem dropEnding?_append (ending : List Char) : dropEnding? ending (cs ++ ending) = some cs := by
  have hs : ending.isSuffixOf (cs ++ ending) = true :=
    List.isSuffixOf_iff_suffix.2 (List.suffix_append cs ending)
  simp [dropEnding?, hs]

theorem dropEnding?_eq_some {ending : List Char} : dropEnding? ending cs = some l ↔ cs = l ++ ending := by
  constructor
  · intro h
    rw [dropEnding?] at h
    split at h
    · rename_i hs
      obtain ⟨front, rfl⟩ := List.isSuffixOf_iff_suffix.1 hs
      simpa [eq_comm] using h
    · cases h
  · rintro rfl
    exact dropEnding?_append ending

theorem dropEnding?_eq_none {c : Char} {ending : List Char} (hc : c ∈ ending) (h : c ∉ cs) :
    dropEnding? ending cs = none := by
  have hs : ¬ending.isSuffixOf cs = true := fun hs =>
    h ((List.isSuffixOf_iff_suffix.1 hs).subset hc)
  simp [dropEnding?, hs]

theorem trimLeft_eq_self (h : ∀ c ∈ cs, isBlank c = false) : trimLeft cs = cs := by
  cases cs with
  | nil => rfl
  | cons c cs => simp [trimLeft, h c List.mem_cons_self]

theorem trimRight_eq_self (h : ∀ c ∈ cs, isBlank c = false) : trimRight cs = cs := by
  have hr : trimLeft cs.reverse = cs.reverse := trimLeft_eq_self fun c hc => h c (List.mem_reverse.1 hc)
  rw [trimLeft] at hr
  rw [trimRight, hr, List.reverse_reverse]

theorem trim_eq_self (h : ∀ c ∈ cs, isBlank c = false) : trim cs = cs := by
  rw [trim, trimLeft_eq_self h, trimRight_eq_self h]

theorem isBlankText_eq_false {c : Char} (hc : c ∈ cs) (h : isBlank c = false) :
    isBlankText cs = false := by
  rw [isBlankText, List.all_eq_false]
  exact ⟨c, hc, by simp [h]⟩

end ApiRules.Text
