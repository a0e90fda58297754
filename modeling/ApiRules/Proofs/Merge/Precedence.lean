import ApiRules.Merge.Basic
import ApiRules.Proofs.Merge.Contributions
import ApiRules.Proofs.Sequences

/-!
Precedence among the records of partial datasets: by the priority of the source, then by the arrival of
the partial dataset, then by the place in it. The merge takes up its contributions in this order.
-/
namespace ApiRules

theorem Source.nodup_all : Source.all.Nodup := by decide

theorem Source.mem_all (s : Source) : s ∈ Source.all := by cases s <;> decide

namespace Partial

/-- The record that a raw record states, if its pattern can be read. -/
def stated? (p : Partial) (r : Partial.Record) : Option ApiRules.Record :=
  match Pattern.parse r.pattern with
  | .ok pattern => some ⟨pattern, r.payload, p.source, r.artifact <|> p.artifact⟩
  | .error _ => none

/-- What partial datasets state about patterns that can be read, by precedence. -/
def statements (ps : List Partial) : List ApiRules.Record :=
  Source.all.flatMap fun s => (ps.filter fun p => p.source = s).flatMap fun p =>
    p.records.filterMap p.stated?

theorem stated?_eq_some {p : Partial} {raw : Partial.Record} {r : ApiRules.Record} :
    p.stated? raw = some r ↔ Pattern.parse raw.pattern = .ok r.pattern ∧ r.payload = raw.payload ∧
      r.source = p.source ∧ r.artifact = (raw.artifact <|> p.artifact) := by
  rw [stated?]
  cases h : Pattern.parse raw.pattern with
  | error e => simp
  | ok pattern =>
    obtain ⟨pattern', payload, source, artifact⟩ := r
    simp only [Option.some.injEq, ApiRules.Record.mk.injEq, Except.ok.injEq]
    constructor
    · rintro ⟨h1, h2, h3, h4⟩
      exact ⟨h1, h2.symm, h3.symm, h4.symm⟩
    · rintro ⟨h1, h2, h3, h4⟩
      exact ⟨h1, h2.symm, h3.symm, h4.symm⟩

theorem mem_statements {ps : List Partial} {r : ApiRules.Record} :
    r ∈ statements ps ↔ ∃ p ∈ ps, ∃ raw ∈ p.records, p.stated? raw = some r := by
  simp only [statements, List.mem_flatMap, List.mem_filter, List.mem_filterMap, decide_eq_true_eq]
  constructor
  · rintro ⟨s, -, p, ⟨hp, -⟩, raw, hraw, hr⟩
    exact ⟨p, hp, raw, hraw, hr⟩
  · rintro ⟨p, hp, raw, hraw, hr⟩
    exact ⟨p.source, p.source.mem_all, p, ⟨hp, rfl⟩, raw, hraw, hr⟩

/-- A sequence in the order of priority is made of the elements of each source in turn. -/
theorem flatMap_filter_source {ps : List Partial}
    (h : ps.Pairwise fun a b => a.source.rank ≤ b.source.rank) :
    (Source.all.flatMap fun s => ps.filter fun p => p.source = s) = ps := by
  induction ps with
  | nil => rfl
  | cons p ps ih =>
    obtain ⟨hp, hps⟩ := List.pairwise_cons.1 h
    have absent : ∀ s : Source, s.rank < p.source.rank → (ps.filter fun q => q.source = s) = [] := by
      intro s hs
      apply List.filter_eq_nil_iff.2
      intro q hq he
      have hle := hp q hq
      rw [of_decide_eq_true he] at hle
      exact absurd hs (Nat.not_lt.2 hle)
    have ih := ih hps
    simp only [Source.all, List.flatMap_cons, List.flatMap_nil, List.append_nil] at ih ⊢
    cases hs : p.source with
    | sdkLint => simp [hs, ih]
    | googleMaven =>
      rw [absent .sdkLint (by rw [hs]; decide)] at ih
      simpa [hs, absent .sdkLint (by rw [hs]; decide)] using ih
    | mavenCentral =>
      rw [absent .sdkLint (by rw [hs]; decide), absent .googleMaven (by rw [hs]; decide)] at ih
      simpa [hs, absent .sdkLint (by rw [hs]; decide), absent .googleMaven (by rw [hs]; decide)] using ih

theorem byPriority_eq (ps : List Partial) :
    byPriority ps = Source.all.flatMap fun s => ps.filter fun p => p.source = s := by
  have sorted : (byPriority ps).Pairwise fun a b => a.source.rank ≤ b.source.rank :=
    Sequences.pairwise_mergeSort_key (fun p : Partial => p.source.rank) ps
  have stable : ∀ s : Source, ((byPriority ps).filter fun p => p.source = s) =
      ps.filter fun p => p.source = s := fun s =>
    Sequences.filter_mergeSort_key (fun p : Partial => p.source.rank) (fun a b ha hb => by
      rw [of_decide_eq_true ha, of_decide_eq_true hb]) ps
  rw [← flatMap_filter_source sorted]
  exact List.flatMap_congr fun s _ => stable s

end Partial

/-- The records that the merge takes up, in its order, are the statements by precedence. -/
theorem Partial.filterMap_record?_contributions (ps : List Partial) :
    ((byPriority ps).flatMap contributions).filterMap Contribution.record? = statements ps := by
  have own : ∀ p : Partial, p.contributions.filterMap Contribution.record? =
      p.records.filterMap p.stated? := by
    intro p
    -- declarations and constants have no record
    have hnone : ∀ {α : Type} (l : List α), (l.filterMap fun _ => (none : Option ApiRules.Record)) = [] :=
      fun l => List.filterMap_eq_nil_iff.2 fun _ _ => rfl
    simp only [filterMap_contributions, Contribution.record?, hnone, List.append_nil]
    rfl
  rw [byPriority_eq, statements, List.filterMap_flatMap, List.flatMap_assoc]
  refine List.flatMap_congr fun s _ => List.flatMap_congr fun p _ => own p

end ApiRules
