import ApiRules.Dictionary
import ApiRules.Proofs.Sequences

/-!
Dictionaries by what is found in them.
-/
namespace ApiRules.Dictionary

open Sequences (lookup_cons_eq)

theorem lookup_put (name value k : String) (es : List (String × String)) :
    (put name value es).lookup k = if k = name then some value else es.lookup k := by
  induction es with
  | nil => exact lookup_cons_eq (name, value) [] k
  | cons e es ih =>
    rw [put]
    split
    · exact lookup_cons_eq (name, value) (e :: es) k
    · split
      · rename_i hlt
        rw [lookup_cons_eq, ih, lookup_cons_eq]
        by_cases hk : k = name
        · have hne : name ≠ e.1 := (String.ne_of_lt hlt).symm
          rw [hk, if_neg hne, if_pos rfl, if_pos rfl]
        · rw [if_neg hk, if_neg hk]
      · rename_i hnot hnot'
        have he : name = e.1 := String.le_antisymm hnot' hnot
        rw [lookup_cons_eq, lookup_cons_eq, ← he]
        by_cases hk : k = name
        · rw [if_pos hk, if_pos hk]
        · rw [if_neg hk, if_neg hk, if_neg hk]

theorem get?_insert (d : Dictionary) (name value k : String) :
    (d.insert name value).get? k = if k = name then some value else d.get? k :=
  lookup_put name value k d.entries

theorem get?_eq_some {d : Dictionary} {name value : String} :
    d.get? name = some value ↔ (name, value) ∈ d.entries := by
  rw [get?, List.lookup_eq_some_iff]
  constructor
  · rintro ⟨before, after, he, -⟩
    rw [he]
    exact List.mem_append_right before List.mem_cons_self
  · intro h
    obtain ⟨before, after, he⟩ := List.append_of_mem h
    refine ⟨before, after, he, ?_⟩
    intro e hbefore
    have hs := d.ascending
    rw [he] at hs
    have hlt := (List.pairwise_append.1 hs).2.2 e hbefore _ List.mem_cons_self
    simpa using (String.ne_of_lt hlt).symm

theorem eq_of_entries {d d' : Dictionary} (h : d.entries = d'.entries) : d = d' := by
  cases d
  cases d'
  cases h
  rfl

theorem eq_of_get? {d d' : Dictionary} (h : ∀ name, d.get? name = d'.get? name) : d = d' := by
  refine eq_of_entries (Sequences.eq_of_pairwise_of_mem_iff (fun _ _ => String.lt_asymm) d.ascending
    d'.ascending ?_)
  rintro ⟨name, value⟩
  rw [← get?_eq_some, ← get?_eq_some, h name]

/-- A name has one entry if it is found, and none otherwise. -/
theorem filter_entries (d : Dictionary) (name : String) :
    (d.entries.filter fun e => e.1 = name) = ((d.get? name).map fun value => (name, value)).toList := by
  have hnodup : (d.entries.map Prod.fst).Nodup := by
    apply List.pairwise_map.2
    exact d.ascending.imp fun h => String.ne_of_lt h
  rw [Sequences.filter_eq_toList_find? hnodup]
  congr 1
  apply Option.ext
  rintro ⟨other, value⟩
  rw [Sequences.find?_key_eq_some hnodup, ← get?_eq_some, Option.map_eq_some_iff]
  constructor
  · rintro ⟨hvalue, rfl⟩
    exact ⟨value, hvalue, rfl⟩
  · rintro ⟨value', hvalue, he⟩
    obtain ⟨rfl, rfl⟩ := Prod.mk.inj he
    exact ⟨hvalue, rfl⟩

theorem put_append {es : List (String × String)} {name : String} (h : ∀ e ∈ es, e.1 < name) (value : String) :
    put name value es = es ++ [(name, value)] := by
  induction es with
  | nil => rfl
  | cons e es ih =>
    obtain ⟨he, hes⟩ := List.forall_mem_cons.1 h
    rw [put, if_neg (String.lt_asymm he), if_pos he, ih hes, List.cons_append]

/-- A dictionary is the one of its entries. -/
theorem ofList_entries (d : Dictionary) : ofList d.entries = d := by
  have hall : ∀ es, (es.Pairwise fun a b => a.1 < b.1) → (ofList es).entries = es := by
    intro es
    -- the last entry has the greatest name, so it is put at the end
    induction es using List.reverseRecOn with
    | nil => exact fun _ => rfl
    | append_singleton es e ih =>
      intro h
      obtain ⟨hes, -, hlt⟩ := List.pairwise_append.1 h
      have hput : (ofList (es ++ [e])).entries = put e.1 e.2 (ofList es).entries := by
        rw [ofList, List.foldl_concat]
        rfl
      rw [hput, ih hes, put_append fun e' he' => hlt e' he' e List.mem_cons_self]
  exact eq_of_entries (hall d.entries d.ascending)

end ApiRules.Dictionary
