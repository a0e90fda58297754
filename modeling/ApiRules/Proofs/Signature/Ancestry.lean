import ApiRules.Proofs.Signature.Order
import Mathlib.Data.List.Infix
import Mathlib.Data.List.Nodup

/-!
The owners around an owner. They are the nonempty leading runs of its segments, each one shorter than those
before it, and their spellings are found by cutting at the last dot again and again.
-/
namespace ApiRules

namespace Text

variable {cs outer : List Char}

/-- What stands before the last dot. -/
def enclosing? (cs : List Char) : Option (List Char) := (cutLast? '.' cs).map Prod.fst

theorem length_lt_of_enclosing? (h : enclosing? cs = some outer) : outer.length < cs.length := by
  obtain ⟨⟨l, r⟩, hc, rfl⟩ := Option.map_eq_some_iff.1 h
  rw [(cutLast?_eq_some.1 hc).1, List.length_append, List.length_cons]
  exact Nat.lt_add_of_pos_right (Nat.succ_pos r.length)

/-- A dotted name, what stands before its last dot, what stands before the last dot of that, and so on. -/
def outwards (cs : List Char) : List (List Char) :=
  match _h : enclosing? cs with
  | none => [cs]
  | some outer => cs :: outwards outer
termination_by cs.length
decreasing_by exact length_lt_of_enclosing? ‹_›

theorem outwards_of_none (h : enclosing? cs = none) : outwards cs = [cs] := by
  rw [outwards]
  split
  · rfl
  · rename_i ho
    cases h.symm.trans ho

theorem outwards_of_some (h : enclosing? cs = some outer) : outwards cs = cs :: outwards outer := by
  rw [outwards]
  split
  · rename_i hn
    cases h.symm.trans hn
  · rename_i ho
    obtain rfl := Option.some.inj (h.symm.trans ho)
    rfl

theorem head?_outwards (cs : List Char) : (outwards cs).head? = some cs := by
  cases h : enclosing? cs with
  | none => rw [outwards_of_none h, List.head?_cons]
  | some outer => rw [outwards_of_some h, List.head?_cons]

/-- Cutting at the last dot takes the last name away. -/
theorem outwards_joinWith {ps : List (List Char)} (hne : ps ≠ []) (h : ∀ p ∈ ps, '.' ∉ p) :
    outwards (joinWith '.' ps) = ps.inits.tail.reverse.map (joinWith '.') := by
  induction ps using List.reverseRecOn with
  | nil => exact absurd rfl hne
  | append_singleton ps p ih =>
    obtain ⟨hps, hp⟩ := List.forall_mem_append.1 h
    have hp : '.' ∉ p := hp p List.mem_cons_self
    cases ps with
    | nil =>
      have hnone : enclosing? p = none := by rw [enclosing?, cutLast?_eq_none hp, Option.map_none]
      exact outwards_of_none hnone
    | cons q ps =>
      have hsome : enclosing? (joinWith '.' (q :: ps ++ [p])) = some (joinWith '.' (q :: ps)) := by
        rw [joinWith_concat (List.cons_ne_nil q ps), enclosing?, cutLast?_append hp, Option.map_some]
      rw [outwards_of_some hsome, ih (List.cons_ne_nil q ps) hps]
      simp [List.inits_append]

end Text

namespace Owner

open Text

theorem inits_eq_cons {α : Type} (l : List α) : l.inits = [] :: l.inits.tail := by
  cases l <;> rfl

theorem leadingRuns_eq {α : Type} (l : List α) : leadingRuns l = l.inits.tail := by
  induction l with
  | nil => rfl
  | cons a l ih =>
    rw [leadingRuns, ih, List.inits_cons, List.tail_cons]
    conv_rhs => rw [inits_eq_cons, List.map_cons]

theorem mem_leadingRuns {α : Type} {l run : List α} : run ∈ leadingRuns l ↔ run ≠ [] ∧ run <+: l := by
  rw [leadingRuns_eq]
  cases l with
  | nil => simp
  | cons a l =>
    rw [List.inits_cons, List.tail_cons, List.mem_map, List.prefix_cons_iff]
    simp only [List.mem_inits]
    constructor
    · rintro ⟨rest, hrest, rfl⟩
      exact ⟨List.cons_ne_nil a rest, .inr ⟨rest, rfl, hrest⟩⟩
    · rintro ⟨hne, hnil | ⟨rest, rfl, hrest⟩⟩
      · exact absurd hnil hne
      · exact ⟨rest, hrest, rfl⟩

theorem pairwise_leadingRuns {α : Type} (l : List α) :
    (leadingRuns l).Pairwise fun a b => a.length < b.length := by
  induction l with
  | nil => exact List.Pairwise.nil
  | cons a l ih =>
    refine List.pairwise_cons.2 ⟨fun run hrun => ?_, ?_⟩
    · obtain ⟨rest, hrest, rfl⟩ := List.mem_map.1 hrun
      have hpos := List.length_pos_iff.2 (mem_leadingRuns.1 hrest).1
      simpa using hpos
    · apply List.pairwise_map.2
      apply ih.imp
      intro b c hlt
      simpa using hlt

theorem map_segments_ancestry (o : Owner) : o.ancestry.map segments = o.segments.inits.tail.reverse := by
  have hid : ∀ run ∈ (leadingRuns o.segments).reverse, (ofSegments? run).map segments = some run := by
    intro run hrun
    rw [ofSegments?, dif_pos (mem_leadingRuns.1 (List.mem_reverse.1 hrun)).1, Option.map_some]
  rw [← leadingRuns_eq, ancestry, List.map_filterMap, List.filterMap_congr hid, List.filterMap_some]

theorem mem_ancestry {o p : Owner} : p ∈ o.ancestry ↔ p.segments <+: o.segments := by
  rw [ancestry, List.mem_filterMap]
  constructor
  · rintro ⟨run, hrun, hp⟩
    obtain ⟨hne, hleads⟩ := mem_leadingRuns.1 (List.mem_reverse.1 hrun)
    rw [ofSegments?, dif_pos hne] at hp
    obtain rfl := Option.some.inj hp
    exact hleads
  · intro hleads
    refine ⟨p.segments, List.mem_reverse.2 (mem_leadingRuns.2 ⟨p.segments_ne_nil, hleads⟩), ?_⟩
    rw [ofSegments?, dif_pos p.segments_ne_nil]

/-- The ancestry goes from the longest name to shorter and shorter ones. -/
theorem pairwise_ancestry (o : Owner) :
    o.ancestry.Pairwise fun p q => q.segments.length < p.segments.length := by
  have hruns : (o.ancestry.map segments).Pairwise fun a b => b.length < a.length := by
    rw [map_segments_ancestry, ← leadingRuns_eq]
    exact List.pairwise_reverse.2 (pairwise_leadingRuns o.segments)
  exact List.pairwise_map.1 hruns

theorem nodup_ancestry (o : Owner) : o.ancestry.Nodup := by
  apply o.pairwise_ancestry.imp
  rintro p q hlt rfl
  exact lt_irrefl _ hlt

theorem outwards_chars (o : Owner) :
    outwards o.chars = (splitOn '.' o.chars).inits.tail.reverse.map (joinWith '.') := by
  rw [splitOn_chars, chars, outwards_joinWith o.map_chars_segments_ne_nil dot_not_mem_of_mem_segments]

/-- The spellings of the ancestry are found by cutting at the last dot again and again. -/
theorem map_chars_ancestry (o : Owner) : o.ancestry.map chars = outwards o.chars := by
  have hchars : chars = (fun ss : List Segment => joinWith '.' (ss.map Segment.chars)) ∘ segments := rfl
  have hruns : o.ancestry.map chars =
      o.segments.inits.tail.reverse.map fun ss => joinWith '.' (ss.map Segment.chars) := by
    rw [hchars, ← List.map_map, map_segments_ancestry]
  rw [hruns, outwards_chars, splitOn_chars, List.map_inits, ← List.map_tail, ← List.map_reverse, List.map_map]
  rfl

theorem nodup_outwards (o : Owner) : (outwards o.chars).Nodup := by
  rw [← map_chars_ancestry]
  exact o.nodup_ancestry.map chars_injective

theorem getLast?_outwards (o : Owner) : (outwards o.chars).getLast? = (splitOn '.' o.chars).head? := by
  rw [outwards_chars, List.getLast?_map, List.getLast?_reverse]
  cases splitOn '.' o.chars with
  | nil => rfl
  | cons p ps =>
    rw [List.inits_cons, List.tail_cons, inits_eq_cons]
    rfl

end Owner

end ApiRules
