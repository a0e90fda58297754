import Mathlib.Data.List.Forall2
import Mathlib.Data.List.MinMax
import Mathlib.Data.List.Nodup

/-!
Sequences: what a stable sort leaves in place, a sequence taken apart by a key, what a function that may fail
makes of its elements, and the first of its greatest elements.
-/
namespace ApiRules.Sequences

variable {α β : Type}

theorem le_trans_key (key : α → Nat) (a b c : α) (hab : decide (key a ≤ key b) = true)
    (hbc : decide (key b ≤ key c) = true) : decide (key a ≤ key c) = true :=
  decide_eq_true (Nat.le_trans (of_decide_eq_true hab) (of_decide_eq_true hbc))

theorem le_total_key (key : α → Nat) (a b : α) :
    (decide (key a ≤ key b) || decide (key b ≤ key a)) = true := by
  simpa using Nat.le_total (key a) (key b)

theorem pairwise_mergeSort_key (key : α → Nat) (l : List α) :
    (l.mergeSort fun a b => key a ≤ key b).Pairwise fun a b => key a ≤ key b :=
  (List.pairwise_mergeSort (le_trans_key key) (le_total_key key) l).imp of_decide_eq_true

/-- What has different keys before a sort has different ones after it. -/
theorem pairwise_mergeSort_ne {le : α → α → Bool} (htrans : ∀ a b c, le a b → le b c → le a c)
    (htotal : ∀ a b, le a b || le b a) {key : α → β} {l : List α} (h : (l.map key).Nodup) :
    (l.mergeSort le).Pairwise fun a b => le a b = true ∧ key a ≠ key b := by
  have hnodup : ((l.mergeSort le).map key).Nodup := ((List.mergeSort_perm l le).map key).nodup_iff.2 h
  exact (List.pairwise_mergeSort htrans htotal l).and (List.pairwise_map.1 hnodup)

/-- Sorting by a key keeps the order of elements that have one key. -/
theorem filter_mergeSort_key (key : α → Nat) {p : α → Bool} (hp : ∀ a b, p a → p b → key a = key b)
    (l : List α) : (l.mergeSort fun a b => key a ≤ key b).filter p = l.filter p := by
  have hs : (l.filter p).Pairwise fun a b => decide (key a ≤ key b) = true :=
    List.pairwise_of_forall_mem_list fun a ha b hb =>
      decide_eq_true (hp a b (List.mem_filter.1 ha).2 (List.mem_filter.1 hb).2).le
  have hsub := (List.sublist_mergeSort (le_trans_key key) (le_total_key key) hs
    List.filter_sublist).filter p
  rw [List.filter_filter] at hsub
  simp only [Bool.and_self] at hsub
  have hlen := ((List.mergeSort_perm l fun a b => decide (key a ≤ key b)).filter p).length_eq
  exact (hsub.eq_of_length hlen.symm).symm

theorem filter_lt_succ_of_pairwise {key : α → Nat} {l : List α} (h : l.Pairwise fun a b => key a ≤ key b)
    (n : Nat) : (l.filter fun a => key a < n + 1) =
      (l.filter fun a => key a < n) ++ l.filter fun a => key a = n := by
  induction l with
  | nil => rfl
  | cons a l ih =>
    obtain ⟨ha, hl⟩ := List.pairwise_cons.1 h
    by_cases hlt : key a < n
    · have hne : key a ≠ n := Nat.ne_of_lt hlt
      have hsucc : key a < n + 1 := Nat.lt_succ_of_lt hlt
      simp only [List.filter_cons, hlt, hsucc, hne, ih hl, decide_true, decide_false, if_true,
        Bool.false_eq_true, if_false, List.cons_append]
    · have hnone : (l.filter fun b => key b < n) = [] :=
        List.filter_eq_nil_iff.2 fun b hb hb' =>
          hlt (Nat.lt_of_le_of_lt (ha b hb) (of_decide_eq_true hb'))
      have hsame : key a < n + 1 ↔ key a = n := by omega
      have hih := ih hl
      rw [hnone, List.nil_append] at hih
      simp only [List.filter_cons, hlt, hnone, hsame, hih, decide_false, Bool.false_eq_true, if_false,
        List.nil_append]

/-- What is sorted by a key stands together key after key. -/
theorem flatMap_range_filter_of_pairwise {key : α → Nat} {l : List α}
    (h : l.Pairwise fun a b => key a ≤ key b) {n : Nat} (hn : ∀ a ∈ l, key a < n) :
    ((List.range n).flatMap fun i => l.filter fun a => key a = i) = l := by
  have hall : ∀ m, ((List.range m).flatMap fun i => l.filter fun a => key a = i) =
      l.filter fun a => key a < m := by
    intro m
    induction m with
    | zero => simp
    | succ m ih => rw [List.range_succ, List.flatMap_append, ih, List.flatMap_singleton,
        filter_lt_succ_of_pairwise h]
  rw [hall, List.filter_eq_self]
  exact fun a ha => decide_eq_true (hn a ha)

theorem all_congr_mem {p q : α → Bool} {l : List α} (h : ∀ a ∈ l, p a = q a) : l.all p = l.all q := by
  rw [Bool.eq_iff_iff, List.all_eq_true, List.all_eq_true]
  exact forall₂_congr fun a ha => by rw [h a ha]

/-- A strict order leaves one way to list the same elements. -/
theorem eq_of_pairwise_of_mem_iff {r : α → α → Prop} (hr : ∀ a b, r a b → ¬r b a) {l l' : List α}
    (h : l.Pairwise r) (h' : l'.Pairwise r) (hm : ∀ a, a ∈ l ↔ a ∈ l') : l = l' := by
  have hne : ∀ {a b}, r a b → a ≠ b := fun hab he => hr _ _ hab (he ▸ hab)
  have hp : l.Perm l' := (List.perm_ext_iff_of_nodup (h.imp hne) (h'.imp hne)).2 hm
  exact hp.eq_of_pairwise (fun a b _ _ hab hba => absurd hba (hr a b hab)) h h'

theorem prefix_append_iff {p a b : List α} : p <+: a ++ b ↔ p <+: a ∨ ∃ q, p = a ++ q ∧ q <+: b := by
  constructor
  · rintro ⟨t, h⟩
    obtain ⟨as, rfl, -⟩ | ⟨q, rfl, rfl⟩ := List.append_eq_append_iff.1 h
    · exact .inl (List.prefix_append p as)
    · exact .inr ⟨q, rfl, List.prefix_append q t⟩
  · rintro (h | ⟨q, rfl, h⟩)
    · exact h.trans (List.prefix_append a b)
    · exact (List.prefix_append_right_inj a).2 h

theorem nodup_eraseDups [DecidableEq α] (l : List α) : l.eraseDups.Nodup := by
  induction hn : l.length using Nat.strong_induction_on generalizing l with
  | _ n ih =>
    cases l with
    | nil => simp
    | cons a l =>
      have hlt : (l.filter fun b => !b == a).length < n := by
        rw [← hn, List.length_cons]
        exact Nat.lt_succ_of_le (List.length_filter_le _ l)
      rw [List.eraseDups_cons]
      refine List.nodup_cons.2 ⟨fun hm => ?_, ih _ hlt _ rfl⟩
      simpa using (List.mem_filter.1 (List.mem_eraseDups.1 hm)).2

theorem nodup_map_concat {key : α → β} {l : List α} {a : α} :
    ((l ++ [a]).map key).Nodup ↔ (l.map key).Nodup ∧ key a ∉ l.map key := by
  rw [List.map_append, List.map_singleton, List.nodup_append]
  constructor
  · rintro ⟨hl, -, hne⟩
    exact ⟨hl, fun hm => hne _ hm _ List.mem_cons_self rfl⟩
  · rintro ⟨hl, ha⟩
    refine ⟨hl, by simp, fun b hb c hc he => ha ?_⟩
    rw [← List.mem_singleton.1 hc, ← he]
    exact hb

/-- Of a key that no two elements share there is one element at most. -/
theorem filter_eq_toList_find? [DecidableEq β] {key : α → β} {l : List α} (h : (l.map key).Nodup) (k : β) :
    (l.filter fun a => key a = k) = (l.find? fun a => key a = k).toList := by
  induction l with
  | nil => rfl
  | cons a l ih =>
    obtain ⟨ha, hl⟩ := List.nodup_cons.1 h
    by_cases hk : key a = k
    · have hr : (l.filter fun a => key a = k) = [] := by
        refine List.filter_eq_nil_iff.2 fun b hb he => ha ?_
        rw [hk, ← of_decide_eq_true he]
        exact List.mem_map_of_mem hb
      simp [hk, hr]
    · simp [hk, ih hl]

theorem toList_map_ne_nil {f : α → β} {o : Option α} : (o.map f).toList ≠ [] ↔ o.isSome = true := by
  cases o <;> simp

/-- Of a key that no two elements share the element is found. -/
theorem find?_key_eq_some [DecidableEq β] {key : α → β} {l : List α} (h : (l.map key).Nodup) {k : β} {a : α} :
    (l.find? fun b => key b = k) = some a ↔ a ∈ l ∧ key a = k := by
  rw [← Option.mem_toList, ← filter_eq_toList_find? h, List.mem_filter, decide_eq_true_eq]

theorem filter_eq_singleton [DecidableEq β] {key : α → β} {l : List α} (h : (l.map key).Nodup) {a : α}
    (ha : a ∈ l) : (l.filter fun b => key b = key a) = [a] := by
  rw [filter_eq_toList_find? h]
  cases hf : l.find? fun b => key b = key a with
  | none => simpa using List.find?_eq_none.1 hf a ha
  | some b =>
    have hb : key b = key a := by simpa using List.find?_some hf
    rw [List.inj_on_of_nodup_map h (List.mem_of_find?_eq_some hf) ha hb]
    rfl

theorem filter_eq_of_perm [DecidableEq β] {key : α → β} {l l' : List α} (hp : l.Perm l')
    (h : (l'.map key).Nodup) (k : β) :
    (l.filter fun a => key a = k) = l'.filter fun a => key a = k := by
  have hf := hp.filter fun a => decide (key a = k)
  rw [filter_eq_toList_find? h k] at hf ⊢
  cases hl : l'.find? fun a => key a = k with
  | none =>
    rw [hl] at hf
    exact hf.eq_nil
  | some a =>
    rw [hl] at hf
    exact List.perm_singleton.1 hf

/-- Taken apart by a key, a sequence keeps its elements. -/
theorem perm_flatMap_filter [DecidableEq β] (key : α → β) {ks : List β} (hn : ks.Nodup) {l : List α}
    (h : ∀ a ∈ l, key a ∈ ks) : (ks.flatMap fun k => l.filter fun a => key a = k).Perm l := by
  induction ks generalizing l with
  | nil =>
    have hl : l = [] := List.eq_nil_iff_forall_not_mem.2 fun a ha => List.not_mem_nil (h a ha)
    simp [hl]
  | cons k ks ih =>
    obtain ⟨hk, hks⟩ := List.nodup_cons.1 hn
    have hr : ∀ a ∈ l.filter fun a => !decide (key a = k), key a ∈ ks := by
      intro a ha
      obtain ⟨ha, hne⟩ := List.mem_filter.1 ha
      exact (List.mem_cons.1 (h a ha)).resolve_left (by simpa using hne)
    have he : (ks.flatMap fun j => l.filter fun a => key a = j) =
        ks.flatMap fun j => (l.filter fun a => !decide (key a = k)).filter fun a => key a = j := by
      apply List.flatMap_congr
      intro j hj
      rw [List.filter_filter]
      apply List.filter_congr
      intro a _
      have hjk : j ≠ k := fun e => hk (e ▸ hj)
      by_cases hj : key a = j <;> simp [hj, hjk]
    rw [List.flatMap_cons, he]
    exact ((ih hks hr).append_left _).trans (List.filter_append_perm _ l)

/-- The numbers of elements with each key add up to the number of elements. -/
theorem sum_countP_eq_length [DecidableEq β] (key : α → β) {ks : List β} (hn : ks.Nodup) {l : List α}
    (h : ∀ a ∈ l, key a ∈ ks) :
    (ks.map fun k => l.countP fun a => key a = k).foldr (· + ·) 0 = l.length := by
  rw [← (perm_flatMap_filter key hn h).length_eq, List.length_flatMap, List.sum_eq_foldr]
  simp only [List.countP_eq_length_filter]

theorem sum_map_filter_ne_zero (l : List (β × Nat)) :
    ((l.filter fun x => x.2 ≠ 0).map Prod.snd).foldr (· + ·) 0 = (l.map Prod.snd).foldr (· + ·) 0 := by
  induction l with
  | nil => rfl
  | cons x l ih =>
    by_cases h : x.2 = 0
    · simpa [h] using ih
    · simpa [h] using ih

/-- What each step adds up, a run adds up. -/
theorem foldl_add_countP {S : Type} {step : S → α → S} {f : S → Nat} {p : α → Bool}
    (h : ∀ s a, f (step s a) = f s + (p a).toNat) (l : List α) (s : S) :
    f (l.foldl step s) = f s + l.countP p := by
  induction l generalizing s with
  | nil => rfl
  | cons a l ih =>
    rw [List.foldl_cons, ih, h, List.countP_cons]
    cases p a <;> simp only [Bool.toNat_true, Bool.toNat_false, if_true, Bool.false_eq_true, if_false] <;> omega

theorem mapM_eq_some_map {f : α → Option β} {g : α → β} {l : List α} (h : ∀ a ∈ l, f a = some (g a)) :
    l.mapM f = some (l.map g) := by
  induction l with
  | nil => rfl
  | cons a l ih =>
    rw [List.mapM_cons, h a List.mem_cons_self, ih fun b hb => h b (List.mem_cons_of_mem a hb)]
    rfl

theorem mapM_map_eq_some {read? : β → Option α} {write : α → β} {l : List α}
    (h : ∀ a ∈ l, read? (write a) = some a) : (l.map write).mapM read? = some l := by
  have hm := mapM_eq_some_map (f := read? ∘ write) (g := id) h
  rw [List.map_id] at hm
  rw [List.mapM_map]
  exact hm

theorem exists_of_mapM {f : α → Option β} {l : List α} {bs : List β} (h : l.mapM f = some bs) {a : α}
    (ha : a ∈ l) : ∃ b, f a = some b := by
  induction l generalizing bs with
  | nil => cases ha
  | cons c l ih =>
    simp only [List.mapM_cons, Option.bind_eq_bind, Option.bind_eq_some_iff] at h
    obtain ⟨b, hb, rest, hrest, -⟩ := h
    obtain rfl | ha := List.mem_cons.1 ha
    · exact ⟨b, hb⟩
    · exact ih hrest ha

theorem exists_mapM_iff {f : α → Option β} {l : List α} :
    (∃ bs, l.mapM f = some bs) ↔ ∀ a ∈ l, ∃ b, f a = some b := by
  constructor
  · rintro ⟨bs, hbs⟩ a ha
    exact exists_of_mapM hbs ha
  · intro h
    induction l with
    | nil => exact ⟨[], rfl⟩
    | cons a l ih =>
      obtain ⟨b, hb⟩ := h a List.mem_cons_self
      obtain ⟨bs, hbs⟩ := ih fun c hc => h c (List.mem_cons_of_mem a hc)
      exact ⟨b :: bs, by simp [hb, hbs]⟩

theorem forall₂_of_mapM {f : α → Option β} {l : List α} {bs : List β} (h : l.mapM f = some bs) :
    List.Forall₂ (fun a b => f a = some b) l bs := by
  induction l generalizing bs with
  | nil =>
    obtain rfl : bs = [] := by simpa [eq_comm] using h
    exact .nil
  | cons a l ih =>
    simp only [List.mapM_cons, Option.bind_eq_bind, Option.bind_eq_some_iff, Option.pure_def,
      Option.some.injEq] at h
    obtain ⟨b, hb, rest, hrest, rfl⟩ := h
    exact .cons hb (ih hrest)

theorem exists_of_forall₂ {r : α → β → Prop} {l : List α} {bs : List β} (h : List.Forall₂ r l bs) {b : β}
    (hb : b ∈ bs) : ∃ a ∈ l, r a b := by
  induction h with
  | nil => cases hb
  | cons hr _ ih =>
    obtain rfl | hb := List.mem_cons.1 hb
    · exact ⟨_, List.mem_cons_self, hr⟩
    · obtain ⟨a, ha, hr⟩ := ih hb
      exact ⟨a, List.mem_cons_of_mem _ ha, hr⟩

theorem forall₂_flatMap_flatten {γ : Type} {r : γ → β → Prop} {g : α → List γ} {l : List α}
    {ls : List (List β)} (h : List.Forall₂ (fun a bs => List.Forall₂ r (g a) bs) l ls) :
    List.Forall₂ r (l.flatMap g) ls.flatten := by
  induction h with
  | nil => exact .nil
  | cons ha _ ih =>
    rw [List.flatMap_cons, List.flatten_cons]
    exact List.rel_append ha ih

/-- Corresponding sequences have corresponding pairs. -/
theorem pairwise_iff_of_forall₂ {r : α → β → Prop} {p : α → α → Prop} {q : β → β → Prop}
    (hpq : ∀ a a' b b', r a b → r a' b' → (p a a' ↔ q b b')) {l : List α} {bs : List β}
    (h : List.Forall₂ r l bs) : l.Pairwise p ↔ bs.Pairwise q := by
  induction h with
  | nil => simp
  | @cons a b l bs hab hl ih =>
    have hhead : (∀ a' ∈ l, p a a') ↔ ∀ b' ∈ bs, q b b' := by
      clear ih
      induction hl with
      | nil => simp
      | cons hab' _ ih => simp only [List.forall_mem_cons, hpq _ _ _ _ hab hab', ih]
    rw [List.pairwise_cons, List.pairwise_cons, hhead, ih]

/-- The keys of a sequence differ if no two elements of the corresponding sequence are rivals. -/
theorem nodup_map_iff_of_forall₂ {γ : Type} {r : α → β → Prop} {key : β → γ} {rival : α → α → Prop}
    (hr : ∀ a a' b b', r a b → r a' b' → (rival a a' ↔ key b = key b')) {l : List α} {bs : List β}
    (h : List.Forall₂ r l bs) : (bs.map key).Nodup ↔ l.Pairwise fun a a' => ¬rival a a' := by
  have hpairs : l.Pairwise (fun a a' => ¬rival a a') ↔ bs.Pairwise fun b b' => key b ≠ key b' :=
    pairwise_iff_of_forall₂ (fun a a' b b' hab hab' => not_congr (hr a a' b b' hab hab')) h
  rw [hpairs]
  exact List.pairwise_map

theorem mem_of_mapM {f : α → Option β} {l : List α} {bs : List β} (h : l.mapM f = some bs) {b : β} :
    b ∈ bs ↔ ∃ a ∈ l, f a = some b := by
  induction l generalizing bs with
  | nil =>
    obtain rfl : bs = [] := by simpa [eq_comm] using h
    simp
  | cons a l ih =>
    simp only [List.mapM_cons, Option.bind_eq_bind, Option.bind_eq_some_iff, Option.pure_def,
      Option.some.injEq] at h
    obtain ⟨c, ha, rest, hrest, rfl⟩ := h
    rw [List.mem_cons, ih hrest]
    simp [ha, eq_comm]

theorem mem_flatten_of_mapM {f : α → Option (List β)} {l : List α} {ls : List (List β)}
    (h : l.mapM f = some ls) {b : β} : b ∈ ls.flatten ↔ ∃ a ∈ l, ∃ bs, f a = some bs ∧ b ∈ bs := by
  rw [List.mem_flatten]
  constructor
  · rintro ⟨bs, hbs, hb⟩
    obtain ⟨a, ha, hf⟩ := (mem_of_mapM h).1 hbs
    exact ⟨a, ha, bs, hf, hb⟩
  · rintro ⟨a, ha, bs, hf, hb⟩
    exact ⟨bs, (mem_of_mapM h).2 ⟨a, ha, hf⟩, hb⟩

theorem lookup_cons_eq [BEq α] [LawfulBEq α] [DecidableEq α] (e : α × β) (es : List (α × β)) (k : α) :
    (e :: es).lookup k = if k = e.1 then some e.2 else es.lookup k := by
  by_cases hk : k = e.1
  · rw [List.lookup_cons, beq_iff_eq.2 hk, if_pos hk]
  · rw [List.lookup_cons, beq_false_of_ne hk, if_neg hk]

theorem lookup_eq_none [BEq α] [LawfulBEq α] {es : List (α × β)} {k : α} (h : k ∉ es.map Prod.fst) :
    es.lookup k = none := by
  rw [List.lookup_eq_none_iff]
  intro e he
  have hmem : e.1 ∈ es.map Prod.fst := List.mem_map_of_mem he
  have hne : k ≠ e.1 := fun hk => h (hk.symm ▸ hmem)
  simpa using hne

/-- What is repeated is not found first. -/
theorem findSome?_append_of_subset {l l' : List α} (h : ∀ a ∈ l', a ∈ l) (f : α → Option β) :
    (l ++ l').findSome? f = l.findSome? f := by
  rw [List.findSome?_append]
  cases hl : l.findSome? f with
  | some b => rfl
  | none =>
    have hnone := List.findSome?_eq_none_iff.1 hl
    rw [Option.none_or]
    exact List.findSome?_eq_none_iff.2 fun a ha => hnone a (h a ha)

theorem findSome?_flatMap {γ : Type} (l : List α) (g : α → List β) (f : β → Option γ) :
    (l.flatMap g).findSome? f = l.findSome? fun a => (g a).findSome? f := by
  simp only [← List.head?_filterMap, List.filterMap_flatMap, List.head?_flatMap]

theorem argmax_map (f : β → Nat) (g : α → β) (l : List α) :
    (l.map g).argmax f = (l.argmax (f ∘ g)).map g := by
  induction l using List.reverseRecOn with
  | nil => rfl
  | append_singleton l a ih =>
    rw [List.map_append, List.map_singleton, List.argmax_concat, List.argmax_concat, ih]
    cases l.argmax (f ∘ g) with
    | none => rfl
    | some b => by_cases h : f (g b) < f (g a) <;> simp [h]

theorem exists_append_of_argmax {f : α → Nat} {l : List α} {a : α} (h : l.argmax f = some a) :
    ∃ before after, l = before ++ a :: after ∧ (∀ b ∈ before, f b < f a) ∧ ∀ b ∈ after, f b ≤ f a := by
  induction l using List.reverseRecOn generalizing a with
  | nil => simp at h
  | append_singleton l x ih =>
    rw [List.argmax_concat] at h
    cases hl : l.argmax f with
    | none =>
      obtain rfl := List.argmax_eq_none.1 hl
      obtain rfl : x = a := by simpa using h
      exact ⟨[], [], rfl, by simp, by simp⟩
    | some c =>
      obtain ⟨before, after, rfl, hb, ha⟩ := ih hl
      simp only [hl] at h
      split at h
      · rename_i hlt
        obtain rfl := Option.some.inj h
        refine ⟨_, [], rfl, fun b hm => ?_, by simp⟩
        obtain hm | hm := List.mem_append.1 hm
        · exact (hb b hm).trans hlt
        · obtain rfl | hm := List.mem_cons.1 hm
          · exact hlt
          · exact (ha b hm).trans_lt hlt
      · rename_i hlt
        obtain rfl := Option.some.inj h
        refine ⟨before, after ++ [x], by simp, hb, fun b hm => ?_⟩
        obtain hm | hm := List.mem_append.1 hm
        · exact ha b hm
        · rw [List.mem_singleton.1 hm]
          exact Nat.le_of_not_lt hlt

/-- The element that `argmax` picks is the first that no other exceeds. -/
theorem argmax_eq_find? (f : α → Nat) (l : List α) :
    l.argmax f = l.find? fun a => l.all fun b => f b ≤ f a := by
  cases h : l.argmax f with
  | none =>
    obtain rfl := List.argmax_eq_none.1 h
    rfl
  | some a =>
    obtain ⟨before, after, rfl, hb, ha⟩ := exists_append_of_argmax h
    refine (List.find?_eq_some_iff_append.2 ⟨?_, before, after, rfl, fun b hm => ?_⟩).symm
    · simp only [List.all_eq_true, List.mem_append, List.mem_cons, decide_eq_true_eq]
      rintro b (hm | rfl | hm)
      · exact (hb b hm).le
      · exact le_rfl
      · exact ha b hm
    · have hlt := hb b hm
      simp only [Bool.not_eq_true', List.all_eq_false, List.mem_append, List.mem_cons]
      exact ⟨a, by simp, by simpa using hlt⟩

end ApiRules.Sequences
