import ApiRules.Dataset.Basic
import Mathlib.Data.List.Basic

/-!
The indexes of a dataset. As records are pushed, each index has for each key the positions of its records,
so that a look-up finds the records of the key in the order of the dataset.
-/
namespace ApiRules

/-- The positions of the elements that satisfy a test, in ascending order. -/
def positions {α : Type} (p : α → Bool) (l : List α) : List Nat :=
  (l.zipIdx.filter fun x => p x.1).map Prod.snd

theorem positions_concat {α : Type} (p : α → Bool) (l : List α) (a : α) :
    positions p (l ++ [a]) = positions p l ++ if p a then [l.length] else [] := by
  by_cases h : p a = true <;> simp [positions, List.zipIdx_append, h]

theorem filterMap_positions {α : Type} (p : α → Bool) (l : List α) :
    ((positions p l).filterMap fun i => l[i]?) = l.filter p := by
  have hfst : ∀ x ∈ l.zipIdx.filter fun x => p x.1, l[x.2]? = some x.1 := fun x hx =>
    List.mem_zipIdx_iff_getElem?.1 (List.mem_filter.1 hx).1
  have hl : l.filter p = (l.zipIdx.filter fun x => p x.1).map Prod.fst := by
    conv_lhs => rw [← List.zipIdx_map_fst 0 l, List.filter_map]
    rfl
  rw [positions, List.filterMap_map, hl, ← List.filterMap_eq_map]
  exact List.filterMap_congr hfst

namespace Index

variable {κ : Type} [DecidableEq κ]

theorem lookup_addTo (key : κ) (position : Nat) (slots : List (κ × List Nat)) (k : κ) :
    ((addTo key position slots).lookup k).getD [] =
      (slots.lookup k).getD [] ++ if k = key then [position] else [] := by
  induction slots with
  | nil =>
    by_cases h : k = key
    · simp [addTo, h]
    · have hb : (k == key) = false := by simpa using h
      simp [addTo, List.lookup_cons, h, hb]
  | cons slot slots ih =>
    obtain ⟨j, ps⟩ := slot
    rw [addTo]
    by_cases hj : j = key
    · rw [if_pos hj]
      by_cases h : k = j
      · simp [h, hj]
      · have hk : ¬k = key := fun e => h (e.trans hj.symm)
        have hb : (k == j) = false := by simpa using h
        simp [List.lookup_cons, hk, hb]
    · rw [if_neg hj]
      by_cases h : k = j
      · have hk : ¬k = key := fun e => hj (h.symm.trans e)
        simp [h, hj]
      · have hb : (k == j) = false := by simpa using h
        simpa [List.lookup_cons, hb] using ih

theorem get_add (index : Index κ) (key : κ) (position : Nat) (k : κ) :
    (index.add key position).get k = index.get k ++ if k = key then [position] else [] :=
  lookup_addTo key position index.slots k

end Index

namespace Dataset

/-- Each index has the positions of the records of its keys. -/
structure Indexed (d : Dataset) : Prop where
  exact : ∀ s, d.exact.get s = positions (fun r => r.pattern = .exact s) d.records
  under : ∀ o, d.under.get o = positions (fun r => r.pattern = .under o) d.records

theorem records_push (d : Dataset) (r : Record) : (d.push r).records = d.records ++ [r] := by
  rw [push]
  split <;> rfl

theorem typedefs_push (d : Dataset) (r : Record) : (d.push r).typedefs = d.typedefs := by
  rw [push]
  split <;> rfl

theorem Indexed.push {d : Dataset} (h : d.Indexed) (r : Record) : (d.push r).Indexed := by
  constructor
  · intro s
    rw [records_push, positions_concat, ← h.exact]
    rw [Dataset.push]
    split
    · rename_i s' hp
      simp [Index.get_add, hp, eq_comm]
    · rename_i o hp
      simp [hp]
  · intro o
    rw [records_push, positions_concat, ← h.under]
    rw [Dataset.push]
    split
    · rename_i s hp
      simp [hp]
    · rename_i o' hp
      simp [Index.get_add, hp, eq_comm]

theorem records_foldl_push (rs : List Record) (d : Dataset) :
    (rs.foldl push d).records = d.records ++ rs := by
  induction rs generalizing d with
  | nil => simp
  | cons r rs ih => simp [ih, records_push]

theorem typedefs_foldl_push (rs : List Record) (d : Dataset) :
    (rs.foldl push d).typedefs = d.typedefs := by
  induction rs generalizing d with
  | nil => rfl
  | cons r rs ih => rw [List.foldl_cons, ih, typedefs_push]

theorem Indexed.foldl_push {d : Dataset} (h : d.Indexed) (rs : List Record) :
    (rs.foldl Dataset.push d).Indexed := by
  induction rs generalizing d with
  | nil => exact h
  | cons r rs ih => exact ih (h.push r)

theorem Indexed.lookupExact {d : Dataset} (h : d.Indexed) (s : Signature) :
    d.lookupExact s = d.records.filter fun r => r.pattern = .exact s := by
  rw [Dataset.lookupExact, select, h.exact, filterMap_positions]

theorem Indexed.lookupOwner {d : Dataset} (h : d.Indexed) (o : Owner) :
    d.lookupOwner o = d.records.filter fun r => r.pattern = .under o := by
  rw [Dataset.lookupOwner, select, h.under, filterMap_positions]

end Dataset

end ApiRules
