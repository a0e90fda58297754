import ApiRules.Proofs.Rule.Comparison
import ApiRules.Proofs.Sequences
import ApiRules.Query.Lookup

/-!
The findings of one kind. They depend on the candidates of the kind alone: of API bounds the tightest one can
be reported, of other rules all are.
-/
namespace ApiRules.Query

/-- The finding that reports a candidate. -/
def Candidate.finding (c : Candidate) : Finding := .ofRecord c.record c.scope

/-- The tightness of what a candidate says among the bounds of its kind. -/
def Candidate.tightness (c : Candidate) : Nat := c.record.payload.tightness

/-- Of the candidates of a kind those that are reported. -/
def selected (strict : Bool) (target : Option UInt32) (k : Kind) (cs : List Candidate) : List Candidate :=
  if k.isApiBound then
    (cs.argmax Candidate.tightness).toList.filter fun c => violated strict target k c.record.level
  else cs

theorem levelOf?_eq {k : Kind} (hk : k.isApiBound = true) {c : Candidate} (hc : c.record.kind = k) :
    levelOf? k c = some c.record.level := by
  obtain ⟨level, hl⟩ := Payload.exists_bound? ((congrArg Kind.isApiBound hc).trans hk)
  rw [levelOf?, if_pos hc, Record.level, hl]
  rfl

theorem tighter_level_iff {k : Kind} (hk : k.isApiBound = true) {b c : Candidate} (hb : b.record.kind = k)
    (hc : c.record.kind = k) :
    k.tighter c.record.level b.record.level = true ↔ b.tightness < c.tightness := by
  obtain ⟨level, hl⟩ := Payload.exists_bound? ((congrArg Kind.isApiBound hc).trans hk)
  obtain ⟨other, ho⟩ := Payload.exists_bound? ((congrArg Kind.isApiBound hb).trans hk)
  have ht := Payload.tighter_iff (hc.trans hb.symm) hl ho
  rw [show c.record.payload.kind = k from hc] at ht
  rw [Record.level, Record.level, hl, ho]
  exact ht

/-- The position and the level of a candidate. -/
def bound (c : Candidate × Nat) : Nat × UInt32 := (c.2, c.1.record.level)

theorem better_of_kind_ne {k : Kind} {c : Candidate × Nat} (hc : c.1.record.kind ≠ k)
    (best : Option (Nat × UInt32)) : better k best c = best := by
  have hl : levelOf? k c.1 = none := if_neg hc
  simp only [better, hl]

theorem foldl_better {k : Kind} (hk : k.isApiBound = true) (cs : List (Candidate × Nat)) :
    cs.foldl (better k) none =
      ((cs.filter fun c => c.1.record.kind = k).argmax fun c => c.1.tightness).map bound := by
  induction cs using List.reverseRecOn with
  | nil => rfl
  | append_singleton cs c ih =>
    rw [List.foldl_append, ih, List.filter_append]
    by_cases hc : c.1.record.kind = k
    · have hf : ([c].filter fun c => c.1.record.kind = k) = [c] := by simp [hc]
      rw [hf, List.argmax_concat]
      cases hm : (cs.filter fun c => c.1.record.kind = k).argmax fun c => c.1.tightness with
      | none => simp [better, levelOf?_eq hk hc, bound]
      | some b =>
        have hb : b.1.record.kind = k := by simpa using (List.mem_filter.1 (List.argmax_mem hm)).2
        have ht := tighter_level_iff hk hb hc
        by_cases hlt : b.1.tightness < c.1.tightness
        · simp [better, levelOf?_eq hk hc, bound, hlt, ht.2 hlt]
        · simp [better, levelOf?_eq hk hc, bound, hlt, mt ht.1 hlt]
    · have hf : ([c].filter fun c => c.1.record.kind = k) = [] := by simp [hc]
      rw [hf, List.append_nil, List.foldl_cons, List.foldl_nil, better_of_kind_ne hc]

theorem binding?_eq {k : Kind} (hk : k.isApiBound = true) (cs : List Candidate) :
    binding? k cs =
      ((cs.zipIdx.filter fun c => c.1.record.kind = k).argmax fun c => c.1.tightness).map bound :=
  foldl_better hk cs.zipIdx

theorem map_fst_filter_zipIdx (k : Kind) (cs : List Candidate) :
    (cs.zipIdx.filter fun c => c.1.record.kind = k).map Prod.fst =
      cs.filter fun c => c.record.kind = k := by
  conv_rhs => rw [← List.zipIdx_map_fst 0 cs, List.filter_map]
  rfl

theorem nodup_map_snd_filter_zipIdx (k : Kind) (cs : List Candidate) :
    ((cs.zipIdx.filter fun c => c.1.record.kind = k).map Prod.snd).Nodup := by
  have hn : (cs.zipIdx.map Prod.snd).Nodup := by
    rw [List.zipIdx_map_snd]
    exact List.nodup_range'
  exact (List.filter_sublist.map Prod.snd).nodup hn

theorem argmax_filter_kind (k : Kind) (cs : List Candidate) :
    (cs.filter fun c => c.record.kind = k).argmax Candidate.tightness =
      ((cs.zipIdx.filter fun c => c.1.record.kind = k).argmax fun c => c.1.tightness).map Prod.fst := by
  rw [← map_fst_filter_zipIdx]
  exact Sequences.argmax_map Candidate.tightness Prod.fst _

/-- The reported candidates of a kind are those that are selected among the candidates of the kind. -/
theorem filter_reported (strict : Bool) (target : Option UInt32) (k : Kind) (cs : List Candidate) :
    ((cs.zipIdx.filter (reported strict target cs)).filter fun c => c.1.record.kind = k).map Prod.fst =
      selected strict target k (cs.filter fun c => c.record.kind = k) := by
  have hswap : ((cs.zipIdx.filter (reported strict target cs)).filter fun c => c.1.record.kind = k) =
      (cs.zipIdx.filter fun c => c.1.record.kind = k).filter (reported strict target cs) := by
    rw [List.filter_filter, List.filter_filter]
    exact List.filter_congr fun c _ => Bool.and_comm _ _
  rw [hswap]
  by_cases hk : k.isApiBound = true
  · have hr : ((cs.zipIdx.filter fun c => c.1.record.kind = k).filter (reported strict target cs)) =
        (cs.zipIdx.filter fun c => c.1.record.kind = k).filter fun c =>
          (binding? k cs).any fun b => b.1 == c.2 && violated strict target k b.2 := by
      apply List.filter_congr
      intro c hc
      have hc : c.1.record.kind = k := by simpa using (List.mem_filter.1 hc).2
      simp only [reported, hc, hk, if_true]
      cases binding? k cs <;> rfl
    rw [hr, binding?_eq hk, selected, if_pos hk, argmax_filter_kind]
    cases hm : (cs.zipIdx.filter fun c => c.1.record.kind = k).argmax fun c => c.1.tightness with
    | none => simp
    | some b =>
      have hb := Sequences.filter_eq_singleton (nodup_map_snd_filter_zipIdx k cs) (List.argmax_mem hm)
      by_cases hv : violated strict target k b.1.record.level = true
      · have he : (fun c : Candidate × Nat => b.2 == c.2) = fun c => decide (c.2 = b.2) := by
          funext c
          rw [Bool.beq_eq_decide_eq, decide_eq_decide]
          exact eq_comm
        simp [bound, hv, he, hb]
      · simp [bound, hv]
  · have hr : (cs.zipIdx.filter fun c => c.1.record.kind = k).filter (reported strict target cs) =
        cs.zipIdx.filter fun c => c.1.record.kind = k := by
      apply List.filter_eq_self.2
      intro c hc
      have hc : c.1.record.kind = k := by simpa using (List.mem_filter.1 hc).2
      simp [reported, hc, hk]
    rw [hr, map_fst_filter_zipIdx, selected, if_neg hk]

theorem filter_kind_bySeverity (k : Kind) (fs : List Finding) :
    ((bySeverity fs).filter fun f => f.kind = k) = fs.filter fun f => f.kind = k :=
  Sequences.filter_mergeSort_key (fun f : Finding => f.kind.severity)
    (fun f g hf hg => by rw [of_decide_eq_true hf, of_decide_eq_true hg]) fs

theorem distinctPayloads_concat (fs : List Finding) (f : Finding) :
    distinctPayloads (fs ++ [f]) =
      if (distinctPayloads fs).any fun g => g.payload = f.payload then distinctPayloads fs
      else distinctPayloads fs ++ [f] := by
  rw [distinctPayloads, List.foldl_append]
  rfl

theorem filter_kind_distinctPayloads (k : Kind) (fs : List Finding) :
    ((distinctPayloads fs).filter fun f => f.kind = k) =
      distinctPayloads (fs.filter fun f => f.kind = k) := by
  induction fs using List.reverseRecOn with
  | nil => rfl
  | append_singleton fs f ih =>
    rw [distinctPayloads_concat, List.filter_append]
    by_cases hf : f.kind = k
    · have hs : ([f].filter fun f => f.kind = k) = [f] := by simp [hf]
      -- a finding with the payload of `f` has its kind, so it is among those of the kind
      have hany : ((distinctPayloads fs).any fun g => g.payload = f.payload) =
          (((distinctPayloads fs).filter fun g => g.kind = k).any fun g => g.payload = f.payload) := by
        rw [List.any_filter]
        congr 1
        funext g
        by_cases hp : g.payload = f.payload
        · have hg : g.kind = k := (congrArg Payload.kind hp).trans hf
          simp [hp, hg]
        · simp [hp]
      rw [hs, distinctPayloads_concat, ← ih, hany]
      split
      · rfl
      · rw [List.filter_append, hs]
    · have hs : ([f].filter fun f => f.kind = k) = [] := by simp [hf]
      rw [hs, List.append_nil, ← ih]
      split
      · rfl
      · rw [List.filter_append, hs, List.append_nil]

/-- The findings of a kind report what is selected among the candidates of the kind. -/
theorem filter_kind_findingsAt (d : Dataset) (s : Signature) (strict : Bool) (target : Option UInt32)
    (k : Kind) :
    ((findingsAt d s strict target).filter fun f => f.kind = k) =
      distinctPayloads ((selected strict target k
        ((candidates d s).filter fun c => c.record.kind = k)).map Candidate.finding) := by
  rw [← filter_reported, findingsAt, filter_kind_bySeverity, filter_kind_distinctPayloads,
    List.filter_map, List.map_map]
  rfl

end ApiRules.Query
