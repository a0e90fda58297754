import ApiRules.Proofs.Dataset.Contents
import ApiRules.Proofs.Query.Candidates
import ApiRules.Proofs.Signature.Ancestry

/-!
Which records of a table cover a signature. It has the records of its own pattern, and those of the levels that
the walk outwards visits, as far as none of its own records has their kind. A dataset of the table has them as
its candidates, from the nearest scope to the widest.
-/
namespace ApiRules

/-- One scope is nearer to the signature than another one. -/
def Scope.Nearer : Scope → Scope → Prop
  | .exact, .under _ => True
  | .under p, .under q => q.segments.length < p.segments.length
  | _, .exact => False

theorem Scope.Nearer.asymm {a b : Scope} (h : a.Nearer b) : ¬b.Nearer a := by
  cases a with
  | exact =>
    cases b with
    | exact => exact h.elim
    | under q => exact id
  | under p =>
    cases b with
    | exact => exact h.elim
    | under q => exact Nat.lt_asymm h

namespace Table

/-- An absolute rule about everything under an owner ends the walk there. -/
def EndsAt (t : Table) (o : Owner) : Prop :=
  ∃ r, t.Has r ∧ r.pattern = .under o ∧ r.kind.isAbsolute = true

/-- The walk from the owner of a signature outwards comes to a level: it ends at none before. -/
def Visits (t : Table) (s : Signature) (o : Owner) : Prop :=
  ∃ inner outer, s.owner.ancestry = inner ++ o :: outer ∧ ∀ p ∈ inner, ¬t.EndsAt p

/-- A record of the table covers a signature through this scope. -/
def Covers (t : Table) (s : Signature) (r : Record) : Scope → Prop
  | .exact => t.Has r ∧ r.pattern = .exact s
  | .under o => t.Has r ∧ r.pattern = .under o ∧ t.Visits s o ∧
      ∀ q, t.Has q → q.pattern = .exact s → q.kind ≠ r.kind

/-- A record that covers the signature says this. -/
def Applies (t : Table) (s : Signature) (p : Payload) : Prop :=
  ∃ r scope, t.Covers s r scope ∧ r.payload = p

/-- The finding reports, of the records that cover the signature and say the same, the nearest one. -/
def Reports (t : Table) (s : Signature) (f : Finding) : Prop :=
  ∃ r, t.Covers s r f.scope ∧ f = .ofRecord r f.scope ∧
    ∀ q scope, t.Covers s q scope → q.payload = r.payload → q = r ∧ scope = f.scope ∨ f.scope.Nearer scope

end Table

namespace Query

theorem mem_visited {levels : List (Owner × List Record)} {level : Owner × List Record} :
    level ∈ visited levels ↔ ∃ inner outer, levels = inner ++ level :: outer ∧
      ∀ l ∈ inner, (l.2.any fun r => r.kind.isAbsolute) = false := by
  induction levels with
  | nil => simp [visited]
  | cons l levels ih =>
    rw [visited]
    split
    · rename_i hl
      rw [List.mem_singleton]
      constructor
      · rintro rfl
        exact ⟨[], levels, rfl, by simp⟩
      · rintro ⟨inner, outer, he, hinner⟩
        cases inner with
        | nil => exact (List.cons.inj he).1.symm
        | cons i inner =>
          have hi := hinner i List.mem_cons_self
          rw [← (List.cons.inj he).1, hl] at hi
          cases hi
    · rename_i hl
      rw [List.mem_cons, ih]
      constructor
      · rintro (rfl | ⟨inner, outer, rfl, hinner⟩)
        · exact ⟨[], levels, rfl, by simp⟩
        · exact ⟨l :: inner, outer, rfl, List.forall_mem_cons.2 ⟨by simpa using hl, hinner⟩⟩
      · rintro ⟨inner, outer, he, hinner⟩
        cases inner with
        | nil => exact Or.inl (List.cons.inj he).1.symm
        | cons i inner =>
          exact Or.inr ⟨inner, outer, (List.cons.inj he).2, (List.forall_mem_cons.1 hinner).2⟩

theorem sublist_visited (levels : List (Owner × List Record)) : (visited levels).Sublist levels := by
  induction levels with
  | nil => exact List.Sublist.refl _
  | cons l levels ih =>
    rw [visited]
    split
    · exact List.singleton_sublist.2 List.mem_cons_self
    · exact ih.cons_cons l

theorem pairwise_visited (d : Dataset) (s : Signature) :
    (visited (d.lookupAncestry s)).Pairwise fun a b => (Scope.under a.1).Nearer (.under b.1) :=
  (List.pairwise_map.2 s.owner.pairwise_ancestry).sublist (sublist_visited _)

/-- Candidates stand from the nearest scope to the widest, and those of one scope are of different kinds. -/
def Candidate.Before (a b : Candidate) : Prop :=
  a.scope.Nearer b.scope ∨ a.scope = b.scope ∧ a.record.kind ≠ b.record.kind

end Query

namespace Dataset.Represents

open Query

variable {d : Dataset} {t : Table} (h : d.Represents t) {s : Signature}

include h

theorem any_isAbsolute_lookupOwner {o : Owner} :
    ((d.lookupOwner o).any fun r => r.kind.isAbsolute) = true ↔ t.EndsAt o := by
  simp only [List.any_eq_true, h.mem_lookupOwner, and_assoc]
  rfl

theorem mem_visited_iff {o : Owner} {rs : List Record} :
    (o, rs) ∈ visited (d.lookupAncestry s) ↔ t.Visits s o ∧ rs = d.lookupOwner o := by
  have hends : ∀ p, ((d.lookupOwner p).any fun r => r.kind.isAbsolute) = false ↔ ¬t.EndsAt p := fun p => by
    rw [← h.any_isAbsolute_lookupOwner, Bool.not_eq_true]
  rw [mem_visited, Dataset.lookupAncestry]
  constructor
  · rintro ⟨inner, outer, he, hinner⟩
    obtain ⟨near, far, hanc, rfl, hfar⟩ := List.map_eq_append_iff.1 he
    obtain ⟨p, far, rfl, hp, rfl⟩ := List.map_eq_cons_iff.1 hfar
    obtain ⟨rfl, rfl⟩ := Prod.mk.inj hp
    refine ⟨⟨near, far, hanc, fun q hq => ?_⟩, rfl⟩
    exact (hends q).1 (hinner _ (List.mem_map_of_mem hq))
  · rintro ⟨⟨near, far, hanc, hnear⟩, rfl⟩
    refine ⟨_, _, by rw [hanc, List.map_append, List.map_cons], fun l hl => ?_⟩
    obtain ⟨q, hq, rfl⟩ := List.mem_map.1 hl
    exact (hends q).2 (hnear q hq)

theorem mem_hidden_iff {k : Kind} :
    (KindSet.ofList ((exactCandidates d s).map fun c => c.record.kind)).contains k = true ↔
      ∃ q, t.Has q ∧ q.pattern = .exact s ∧ q.kind = k := by
  rw [kinds_exactCandidates, KindSet.contains_ofList, decide_eq_true_eq, List.mem_map]
  simp only [h.mem_lookupExact, and_assoc]

theorem mem_exactCandidates {c : Candidate} :
    c ∈ exactCandidates d s ↔ c.scope = .exact ∧ t.Has c.record ∧ c.record.pattern = .exact s := by
  rw [exactCandidates, List.mem_map]
  constructor
  · rintro ⟨r, hr, rfl⟩
    exact ⟨rfl, h.mem_lookupExact.1 hr⟩
  · rintro ⟨hscope, hr⟩
    exact ⟨c.record, h.mem_lookupExact.2 hr, by rw [← hscope]⟩

theorem mem_levelCandidates {hidden : KindSet} {o : Owner} {c : Candidate} :
    c ∈ levelCandidates hidden (o, d.lookupOwner o) ↔
      c.scope = .under o ∧ t.Has c.record ∧ c.record.pattern = .under o ∧
        hidden.contains c.record.kind = false := by
  rw [levelCandidates, List.mem_map]
  constructor
  · rintro ⟨r, hr, rfl⟩
    obtain ⟨hr, hk⟩ := List.mem_filter.1 hr
    obtain ⟨hr, hp⟩ := h.mem_lookupOwner.1 hr
    exact ⟨rfl, hr, hp, by simpa using hk⟩
  · rintro ⟨hscope, hr, hp, hk⟩
    exact ⟨c.record, List.mem_filter.2 ⟨h.mem_lookupOwner.2 ⟨hr, hp⟩, by simpa using hk⟩, by rw [← hscope]⟩

/-- The candidates are the records that cover the signature. -/
theorem mem_candidates {c : Candidate} : c ∈ candidates d s ↔ t.Covers s c.record c.scope := by
  have hhidden : (KindSet.ofList ((exactCandidates d s).map fun c => c.record.kind)).contains
      c.record.kind = false ↔ ∀ q, t.Has q → q.pattern = .exact s → q.kind ≠ c.record.kind := by
    rw [← Bool.not_eq_true, h.mem_hidden_iff]
    simp only [not_exists, not_and]
  rw [candidates, List.mem_append, h.mem_exactCandidates, List.mem_flatMap]
  constructor
  · rintro (⟨hscope, hr⟩ | ⟨⟨o, rs⟩, hlevel, hc⟩)
    · rw [hscope]
      exact hr
    · obtain ⟨hvisits, rfl⟩ := h.mem_visited_iff.1 hlevel
      obtain ⟨hscope, hr, hp, hk⟩ := h.mem_levelCandidates.1 hc
      rw [hscope]
      exact ⟨hr, hp, hvisits, hhidden.1 hk⟩
  · intro hcovers
    cases hscope : c.scope with
    | exact =>
      rw [hscope] at hcovers
      exact Or.inl ⟨rfl, hcovers⟩
    | under o =>
      rw [hscope] at hcovers
      obtain ⟨hr, hp, hvisits, hk⟩ := hcovers
      refine Or.inr ⟨(o, d.lookupOwner o), h.mem_visited_iff.2 ⟨hvisits, rfl⟩, ?_⟩
      exact h.mem_levelCandidates.2 ⟨hscope, hr, hp, hhidden.2 hk⟩

theorem pairwise_exactCandidates : (exactCandidates d s).Pairwise Candidate.Before := by
  have hk := h.pairwise_kind_ne (.exact s)
  rw [← h.indexed.lookupExact] at hk
  exact List.pairwise_map.2 (hk.imp fun hne => Or.inr ⟨rfl, hne⟩)

theorem pairwise_levelCandidates (hidden : KindSet) (o : Owner) :
    (levelCandidates hidden (o, d.lookupOwner o)).Pairwise Candidate.Before := by
  have hk := h.pairwise_kind_ne (.under o)
  rw [← h.indexed.lookupOwner] at hk
  exact List.pairwise_map.2 ((hk.filter _).imp fun hne => Or.inr ⟨rfl, hne⟩)

/-- The candidates stand from the nearest scope to the widest. -/
theorem pairwise_candidates : (candidates d s).Pairwise Candidate.Before := by
  rw [candidates, List.pairwise_append]
  refine ⟨h.pairwise_exactCandidates, List.pairwise_flatMap.2 ⟨?_, ?_⟩, ?_⟩
  · rintro ⟨o, rs⟩ hlevel
    obtain ⟨-, rfl⟩ := h.mem_visited_iff.1 hlevel
    exact h.pairwise_levelCandidates _ o
  · apply (pairwise_visited d s).imp_of_mem
    rintro ⟨o, rs⟩ ⟨p, qs⟩ ho hp hnear a ha b hb
    obtain ⟨-, rfl⟩ := h.mem_visited_iff.1 ho
    obtain ⟨-, rfl⟩ := h.mem_visited_iff.1 hp
    refine Or.inl ?_
    rw [(h.mem_levelCandidates.1 ha).1, (h.mem_levelCandidates.1 hb).1]
    exact hnear
  · intro a ha b hb
    obtain ⟨⟨o, rs⟩, hlevel, hb⟩ := List.mem_flatMap.1 hb
    obtain ⟨-, rfl⟩ := h.mem_visited_iff.1 hlevel
    refine Or.inl ?_
    rw [(h.mem_exactCandidates.1 ha).1, (h.mem_levelCandidates.1 hb).1]
    trivial

theorem pairwise_filter_kind_candidates (k : Kind) :
    ((candidates d s).filter fun c => c.record.kind = k).Pairwise fun a b => a.scope.Nearer b.scope := by
  apply (h.pairwise_candidates.filter _).imp_of_mem
  intro a b ha hb hab
  have hak : a.record.kind = k := by simpa using (List.mem_filter.1 ha).2
  have hbk : b.record.kind = k := by simpa using (List.mem_filter.1 hb).2
  exact hab.resolve_right fun hne => hne.2 (hak.trans hbk.symm)

theorem applies_iff {p : Payload} : t.Applies s p ↔
    ∃ c ∈ (candidates d s).filter fun c => c.record.kind = p.kind, c.record.payload = p := by
  constructor
  · rintro ⟨r, scope, hr, rfl⟩
    exact ⟨⟨r, scope⟩, List.mem_filter.2 ⟨h.mem_candidates.2 hr, decide_eq_true rfl⟩, rfl⟩
  · rintro ⟨c, hc, hp⟩
    exact ⟨c.record, c.scope, h.mem_candidates.1 (List.mem_filter.1 hc).1, hp⟩

/-- Among the candidates of a kind the first one of its payload is the nearest record that says so. -/
theorem reports_of_filter_kind {k : Kind} {c : Candidate} {before after : List Candidate}
    (hc : ((candidates d s).filter fun c => c.record.kind = k) = before ++ c :: after)
    (hbefore : ∀ b ∈ before, b.record.payload ≠ c.record.payload) : t.Reports s c.finding := by
  have hmem : ∀ b, b ∈ before ++ c :: after ↔ t.Covers s b.record b.scope ∧ b.record.kind = k := fun b => by
    rw [← hc, List.mem_filter, h.mem_candidates, decide_eq_true_eq]
  have hck := (hmem c).1 (List.mem_append_right _ List.mem_cons_self)
  refine ⟨c.record, hck.1, rfl, fun q scope hq hpay => ?_⟩
  have hqk : q.kind = k := (congrArg Payload.kind hpay).trans hck.2
  obtain hq | hq := List.mem_append.1 ((hmem ⟨q, scope⟩).2 ⟨hq, hqk⟩)
  · exact absurd hpay (hbefore _ hq)
  · obtain hq | hq := List.mem_cons.1 hq
    · exact Or.inl ⟨congrArg Candidate.record hq, congrArg Candidate.scope hq⟩
    · have hs := h.pairwise_filter_kind_candidates k (s := s)
      rw [hc] at hs
      exact Or.inr ((List.pairwise_cons.1 (List.pairwise_append.1 hs).2.1).1 _ hq)

end Dataset.Represents

end ApiRules
