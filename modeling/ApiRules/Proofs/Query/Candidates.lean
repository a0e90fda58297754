import ApiRules.Proofs.Query.Selection

/-!
The candidates of one kind. If the signature itself has a record of the kind, its records of the kind are all
of them; what is said about the kind on owners is hidden.
-/
namespace ApiRules

theorem Kind.bit_and_eq_zero {j k : Kind} (h : j ≠ k) : j.bit &&& k.bit = 0 := by
  cases j <;> cases k <;> first | exact absurd rfl h | decide

namespace KindSet

theorem bits_or_and_self (a b : UInt8) : (a ||| b) &&& b = b := by
  rw [← UInt8.toBitVec_inj]
  ext i hi
  simpa using fun hb => Or.inr hb

theorem bits_or_and_of_disjoint (a : UInt8) {b c : UInt8} (h : b &&& c = 0) :
    (a ||| b) &&& c = a &&& c := by
  have hd : (a ||| b) &&& c = a &&& c ||| b &&& c := by
    rw [← UInt8.toBitVec_inj]
    exact BitVec.and_or_distrib_right
  rw [hd, h, UInt8.or_zero]

theorem contains_insert (s : KindSet) (j k : Kind) :
    (s.insert j).contains k = (s.contains k || decide (k = j)) := by
  by_cases h : k = j
  · simp [contains, insert, h, bits_or_and_self]
  · have hd := Kind.bit_and_eq_zero (Ne.symm h)
    simp [contains, insert, h, bits_or_and_of_disjoint s.bits hd]

theorem contains_ofList (ks : List Kind) (k : Kind) : (ofList ks).contains k = decide (k ∈ ks) := by
  induction ks using List.reverseRecOn with
  | nil => cases k <;> decide
  | append_singleton ks j ih =>
    rw [ofList, List.foldl_append, List.foldl_cons, List.foldl_nil, ← ofList, contains_insert, ih]
    simp

end KindSet

namespace Query

theorem kinds_exactCandidates (d : Dataset) (s : Signature) :
    ((exactCandidates d s).map fun c => c.record.kind) = (d.lookupExact s).map Record.kind := by
  rw [exactCandidates, List.map_map]
  rfl

/-- A record of the signature hides what owners have of its kind. -/
theorem filter_kind_candidates_of_mem {d : Dataset} {s : Signature} {k : Kind}
    (h : k ∈ (d.lookupExact s).map Record.kind) :
    ((candidates d s).filter fun c => c.record.kind = k) =
      ((d.lookupExact s).filter fun r => r.kind = k).map fun r => ⟨r, .exact⟩ := by
  have hidden : (KindSet.ofList ((exactCandidates d s).map fun c => c.record.kind)).contains k = true := by
    rw [kinds_exactCandidates, KindSet.contains_ofList]
    exact decide_eq_true h
  have hlevels : (((visited (d.lookupAncestry s)).flatMap (levelCandidates
      (KindSet.ofList ((exactCandidates d s).map fun c => c.record.kind)))).filter fun c =>
        c.record.kind = k) = [] := by
    apply List.filter_eq_nil_iff.2
    intro c hc hk
    obtain ⟨level, -, hc⟩ := List.mem_flatMap.1 hc
    obtain ⟨r, hr, rfl⟩ := List.mem_map.1 hc
    have hr := (List.mem_filter.1 hr).2
    rw [show r.kind = k from of_decide_eq_true hk, hidden] at hr
    cases hr
  rw [candidates, List.filter_append, hlevels, List.append_nil, exactCandidates, List.filter_map]
  rfl

/-- The one record that the signature has of a kind is what the findings of the kind are about. -/
theorem filter_kind_findingsAt_of_exact {d : Dataset} {s : Signature} {k : Kind} {r : Record}
    (h : ((d.lookupExact s).filter fun r => r.kind = k) = [r]) (strict : Bool) (target : Option UInt32) :
    ((findingsAt d s strict target).filter fun f => f.kind = k) =
      if k.isApiBound ∧ ¬violated strict target k r.level then [] else [.ofRecord r .exact] := by
  have hm : k ∈ (d.lookupExact s).map Record.kind := by
    have hr : r ∈ (d.lookupExact s).filter fun r => r.kind = k := h ▸ List.mem_singleton_self r
    obtain ⟨hr, hk⟩ := List.mem_filter.1 hr
    exact List.mem_map.2 ⟨r, hr, of_decide_eq_true hk⟩
  rw [filter_kind_findingsAt, filter_kind_candidates_of_mem hm, h]
  by_cases hk : k.isApiBound = true
  · by_cases hv : violated strict target k r.level = true
    · simp [selected, hk, hv, distinctPayloads, Candidate.finding]
    · simp [selected, hk, hv, distinctPayloads]
  · simp [selected, hk, distinctPayloads, Candidate.finding]

end Query

end ApiRules
