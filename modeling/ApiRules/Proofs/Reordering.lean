import ApiRules.Proofs.Sequences
import Mathlib.Data.List.FinRange

/-!
Sequences in another order: what a reordering keeps, sequences that a sort makes equal, and runs that do not
depend on the order of independent steps.
-/
namespace ApiRules.Sequences

variable {α β : Type}

section Positions

variable {l l' : List α} {σ : Fin l'.length ≃ Fin l.length}

theorem mem_map_finRange {m n : Nat} (σ : Fin m ≃ Fin n) (i : Fin n) : i ∈ (List.finRange m).map σ :=
  List.mem_map.2 ⟨σ.symm i, List.mem_finRange _, σ.apply_symm_apply i⟩

theorem eq_map_get (h : ∀ i, l'.get i = l.get (σ i)) :
    l' = ((List.finRange l'.length).map σ).map l.get := by
  rw [List.map_map]
  exact (List.map_get_finRange l').symm.trans (List.map_congr_left fun i _ => h i)

theorem perm_of_positions (h : ∀ i, l'.get i = l.get (σ i)) : l'.Perm l := by
  have hnodup := (List.nodup_finRange l'.length).map σ.injective
  have hp : ((List.finRange l'.length).map σ).Perm (List.finRange l.length) := by
    apply (List.perm_ext_iff_of_nodup hnodup (List.nodup_finRange _)).2
    intro i
    exact iff_of_true (mem_map_finRange σ i) (List.mem_finRange i)
  have hm := hp.map l.get
  rwa [← eq_map_get h, List.map_get_finRange] at hm

/-- What keeps its order is the same subsequence. -/
theorem filter_eq_of_positions (h : ∀ i, l'.get i = l.get (σ i)) {p : α → Bool}
    (hp : ∀ i j, i < j → p (l'.get i) → p (l'.get j) → σ i < σ j) : l'.filter p = l.filter p := by
  have horder : ((List.finRange l'.length).map σ).filter (p ∘ l.get) =
      (List.finRange l.length).filter (p ∘ l.get) := by
    -- both sides have the same positions, and both ascend
    apply eq_of_pairwise_of_mem_iff (r := (· < ·)) (fun _ _ => lt_asymm)
    · apply List.pairwise_filter.2
      apply List.pairwise_map.2
      apply (List.pairwise_lt_finRange _).imp
      intro i j hij hi hj
      rw [Function.comp_apply, ← h] at hi hj
      exact hp i j hij hi hj
    · exact (List.pairwise_lt_finRange _).filter _
    · intro i
      simp only [List.mem_filter, mem_map_finRange, List.mem_finRange]
  calc l'.filter p
      = (((List.finRange l'.length).map σ).map l.get).filter p := by rw [← eq_map_get h]
    _ = ((List.finRange l.length).filter (p ∘ l.get)).map l.get := by rw [List.filter_map, horder]
    _ = l.filter p := by rw [← List.filter_map, List.map_get_finRange]

end Positions

theorem flatMap_filter_of_eq_nil {p : α → Bool} {f : α → List β} (h : ∀ a, p a = false → f a = [])
    (l : List α) : (l.filter p).flatMap f = l.flatMap f := by
  induction l with
  | nil => rfl
  | cons a l ih => cases hp : p a <;> simp [hp, ih, h]

theorem perm_of_find?_key [DecidableEq β] {key : α → β} {l l' : List α} (h : (l.map key).Nodup)
    (h' : (l'.map key).Nodup)
    (hf : ∀ k, (l.find? fun a => key a = k) = l'.find? fun a => key a = k) : l.Perm l' := by
  apply (List.perm_ext_iff_of_nodup h.of_map h'.of_map).2
  intro a
  have ha := (find?_key_eq_some h (k := key a) (a := a)).symm
  rw [hf, find?_key_eq_some h'] at ha
  simpa using ha

/-- Sorting makes reorderings equal, unless elements that differ may stand in either order. -/
theorem mergeSort_eq_of_perm {le : α → α → Bool} (htrans : ∀ a b c, le a b → le b c → le a c)
    (htotal : ∀ a b, le a b || le b a) {l l' : List α} (h : l.Perm l')
    (hle : ∀ a b, a ∈ l → b ∈ l → le a b → le b a → a = b) : l.mergeSort le = l'.mergeSort le := by
  have hp := (List.mergeSort_perm l le).trans (h.trans (List.mergeSort_perm l' le).symm)
  apply hp.eq_of_pairwise _ (List.pairwise_mergeSort htrans htotal l)
    (List.pairwise_mergeSort htrans htotal l')
  intro a b ha hb
  exact hle a b (List.mem_mergeSort.1 ha) (h.mem_iff.2 (List.mem_mergeSort.1 hb))

section Runs

variable {S : Type} {step : S → α → S} {R : S → S → Prop}

theorem foldl_related (hstep : ∀ {s t} a, R s t → R (step s a) (step t a)) (l : List α) {s t : S}
    (h : R s t) : R (l.foldl step s) (l.foldl step t) := by
  induction l generalizing s t with
  | nil => exact h
  | cons a l ih => exact ih (hstep a h)

/-- A step may be taken before those that it commutes with. -/
theorem foldl_step_related (hrefl : ∀ s, R s s) (htrans : ∀ {s t u}, R s t → R t u → R s u)
    (hstep : ∀ {s t} a, R s t → R (step s a) (step t a)) {a : α} {l : List α}
    (hcomm : ∀ b ∈ l, ∀ s, R (step (step s a) b) (step (step s b) a)) (s : S) :
    R (l.foldl step (step s a)) (step (l.foldl step s) a) := by
  induction l generalizing s with
  | nil => exact hrefl _
  | cons b l ih =>
    have hswap := foldl_related hstep l (hcomm b List.mem_cons_self s)
    exact htrans hswap (ih (fun c hc => hcomm c (List.mem_cons_of_mem b hc)) (step s b))

theorem exists_split_of_filter_eq [DecidableEq β] {key : α → Option β} {a : α} {l l' : List α}
    (hp : (a :: l).Perm l')
    (hf : ∀ k, (a :: l).filter (fun b => key b = some k) = l'.filter fun b => key b = some k) :
    ∃ before after, l' = before ++ a :: after ∧ ∀ b ∈ before, ∀ k, key a = some k → key b ≠ some k := by
  cases hk : key a with
  | none =>
    -- no key is shared with `a`, so any place of it will do
    obtain ⟨before, after, rfl⟩ := List.append_of_mem (hp.subset List.mem_cons_self)
    exact ⟨before, after, rfl, by simp⟩
  | some k =>
    have hcons := hf k
    rw [List.filter_cons_of_pos (by simpa using hk)] at hcons
    obtain ⟨before, after, rfl, hbefore, -, -⟩ := List.filter_eq_cons_iff.1 hcons.symm
    refine ⟨before, after, rfl, ?_⟩
    rintro b hb j hj
    obtain rfl := Option.some.inj hj
    simpa using hbefore b hb

theorem filter_eq_of_split [DecidableEq β] {key : α → Option β} {a : α} {l before after : List α}
    (hbefore : ∀ b ∈ before, ∀ k, key a = some k → key b ≠ some k) {k : β}
    (hf : (a :: l).filter (fun b => key b = some k) =
      (before ++ a :: after).filter fun b => key b = some k) :
    l.filter (fun b => key b = some k) = (before ++ after).filter fun b => key b = some k := by
  rw [List.filter_append] at hf ⊢
  by_cases hk : key a = some k
  · have hnil : (before.filter fun b => key b = some k) = [] :=
      List.filter_eq_nil_iff.2 fun b hb => by simpa using hbefore b hb k hk
    rw [hnil, List.filter_cons_of_pos (by simpa using hk), List.filter_cons_of_pos (by simpa using hk)] at hf
    rw [hnil]
    exact (List.cons.inj hf).2
  · rwa [List.filter_cons_of_neg (by simpa using hk), List.filter_cons_of_neg (by simpa using hk)] at hf

/-- Runs over reorderings are related if the steps of each key keep their order, and steps of different keys
or without a key commute. -/
theorem foldl_related_of_perm [DecidableEq β] {key : α → Option β} (hrefl : ∀ s, R s s)
    (htrans : ∀ {s t u}, R s t → R t u → R s u) (hstep : ∀ {s t} a, R s t → R (step s a) (step t a))
    (hcomm : ∀ a b, (∀ k, key a = some k → key b ≠ some k) → ∀ s,
      R (step (step s a) b) (step (step s b) a))
    {l l' : List α} (hp : l.Perm l')
    (hf : ∀ k, l.filter (fun a => key a = some k) = l'.filter fun a => key a = some k) {s t : S}
    (h : R s t) : R (l.foldl step s) (l'.foldl step t) := by
  induction l generalizing l' s t with
  | nil =>
    obtain rfl := hp.nil_eq
    exact h
  | cons a l ih =>
    -- `a` moves to the front of the other run, past steps that it commutes with
    obtain ⟨before, after, rfl, hbefore⟩ := exists_split_of_filter_eq hp hf
    have hrest : l.Perm (before ++ after) := (hp.trans List.perm_middle).cons_inv
    have hrun := ih hrest (fun k => filter_eq_of_split hbefore (hf k)) (hstep a h)
    have hfront := foldl_step_related hrefl htrans hstep (fun b hb => hcomm a b (hbefore b hb)) t
    rw [List.foldl_append] at hrun
    rw [List.foldl_cons, List.foldl_append, List.foldl_cons]
    exact htrans hrun (foldl_related hstep after hfront)

end Runs

end ApiRules.Sequences
