import ApiRules.Proofs.Query.Selection

/-!
The findings by tier and by payload. An answer has the findings of one tier after those of another, and of each
payload that is no bound the first finding.
-/
namespace ApiRules

namespace Kind

theorem severity_lt (k : Kind) : k.severity < 5 := by
  cases k <;> decide

theorem severity_eq_two {k : Kind} : k.severity = 2 ↔ k.isApiBound = true := by
  cases k <;> decide

/-- A kind that is no bound has its tier to itself. -/
theorem severity_eq_iff {j k : Kind} (hk : k.isApiBound = false) : j.severity = k.severity ↔ j = k := by
  revert hk
  cases k <;> cases j <;> decide

end Kind

namespace Query

/-- The findings of a tier. -/
def tier (fs : List Finding) (n : Nat) : List Finding := fs.filter fun f => f.kind.severity = n

theorem tier_severity {k : Kind} (hk : k.isApiBound = false) (fs : List Finding) :
    tier fs k.severity = fs.filter fun f => f.kind = k := by
  apply List.filter_congr
  intro f _
  rw [decide_eq_decide]
  exact Kind.severity_eq_iff hk

/-- In a tier the findings keep their order. -/
theorem tier_bySeverity (fs : List Finding) (n : Nat) : tier (bySeverity fs) n = tier fs n := by
  apply Sequences.filter_mergeSort_key (fun f : Finding => f.kind.severity)
  intro f g hf hg
  exact (of_decide_eq_true hf).trans (of_decide_eq_true hg).symm

theorem flatMap_tier_bySeverity (fs : List Finding) :
    (List.range 5).flatMap (tier (bySeverity fs)) = bySeverity fs :=
  Sequences.flatMap_range_filter_of_pairwise
    (Sequences.pairwise_mergeSort_key (fun f : Finding => f.kind.severity) fs)
    fun f _ => f.kind.severity_lt

/-- To sort by severity is to gather the tiers, one after another. -/
theorem bySeverity_eq_flatMap (fs : List Finding) : bySeverity fs = (List.range 5).flatMap (tier fs) := by
  rw [← flatMap_tier_bySeverity, funext (tier_bySeverity fs)]

theorem flatMap_tier_findingsAt (d : Dataset) (s : Signature) (strict : Bool) (target : Option UInt32) :
    (List.range 5).flatMap (tier (findingsAt d s strict target)) = findingsAt d s strict target :=
  flatMap_tier_bySeverity _

/-- An answer by kinds and, in the third tier, the bounds. -/
theorem findingsAt_eq_append (d : Dataset) (s : Signature) (strict : Bool) (target : Option UInt32) :
    let fs := findingsAt d s strict target
    fs = (fs.filter fun f => f.kind = .removed) ++ (fs.filter fun f => f.kind = .restrictedVisibility) ++
      (tier fs 2 ++ ((fs.filter fun f => f.kind = .deprecated) ++ fs.filter fun f => f.kind = .sinceVersion)) := by
  intro fs
  have hrange : List.range 5 = [0, 1, 2, 3, 4] := rfl
  have htiers := flatMap_tier_findingsAt d s strict target
  rw [hrange] at htiers
  simp only [List.flatMap_cons, List.flatMap_nil, List.append_nil] at htiers
  rw [← tier_severity rfl, ← tier_severity rfl, ← tier_severity rfl, ← tier_severity rfl, List.append_assoc]
  exact htiers.symm

/-- Without the bounds, an answer has the findings of one kind after those of another. -/
theorem filter_not_isApiBound_findingsAt (d : Dataset) (s : Signature) (strict : Bool)
    (target : Option UInt32) :
    let fs := findingsAt d s strict target
    (fs.filter fun f => !f.kind.isApiBound) =
      (fs.filter fun f => f.kind = .removed) ++ (fs.filter fun f => f.kind = .restrictedVisibility) ++
        ((fs.filter fun f => f.kind = .deprecated) ++ fs.filter fun f => f.kind = .sinceVersion) := by
  intro fs
  have hkind : ∀ k : Kind, k.isApiBound = false →
      ((fs.filter fun f => f.kind = k).filter fun f => !f.kind.isApiBound) = fs.filter fun f => f.kind = k := by
    intro k hk
    apply List.filter_eq_self.2
    intro f hf
    have hfk : f.kind = k := by simpa using (List.mem_filter.1 hf).2
    rw [hfk, hk]
    rfl
  have hbounds : ((tier fs 2).filter fun f => !f.kind.isApiBound) = [] := by
    apply List.filter_eq_nil_iff.2
    intro f hf
    have hs : f.kind.severity = 2 := by simpa using (List.mem_filter.1 hf).2
    simpa using Kind.severity_eq_two.1 hs
  have happend : fs = _ := findingsAt_eq_append d s strict target
  conv_lhs => rw [happend]
  simp only [List.filter_append]
  rw [hkind _ rfl, hkind _ rfl, hkind _ rfl, hkind _ rfl, hbounds, List.nil_append]

theorem filter_payload_distinctPayloads (p : Payload) (fs : List Finding) :
    ((distinctPayloads fs).filter fun f => f.payload = p) = (fs.find? fun f => f.payload = p).toList := by
  induction fs using List.reverseRecOn with
  | nil => rfl
  | append_singleton fs f ih =>
    have hany : ((distinctPayloads fs).any fun g => g.payload = p) =
        (fs.find? fun g => g.payload = p).isSome := by
      rw [Bool.eq_iff_iff, List.any_eq_true, Option.isSome_iff_exists]
      apply exists_congr
      intro g
      have hmem : g ∈ (distinctPayloads fs).filter (fun g => g.payload = p) ↔ _ := List.mem_filter
      rw [ih, Option.mem_toList] at hmem
      exact hmem.symm
    rw [distinctPayloads_concat, List.find?_append]
    by_cases hf : f.payload = p
    · rw [hf, hany]
      cases hfind : fs.find? fun g => g.payload = p with
      | none => simp [List.filter_append, ih, hfind, hf]
      | some g => simp [ih, hfind]
    · have hs : ([f].find? fun g => g.payload = p) = none := by simp [hf]
      rw [hs, Option.or_none, ← ih]
      split
      · rfl
      · simp [List.filter_append, hf]

end Query

end ApiRules
