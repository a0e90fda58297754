import ApiRules.Proofs.Query.Arrangement

/-!
The shape of an answer. It goes by tiers, in each tier from the nearest scope to the widest, says nothing twice and
has at most one finding of each kind that is absolute or a bound.
-/
namespace ApiRules

namespace Kind

/-- The kinds of each tier, the gravest first. -/
def tiers : List (List Kind) :=
  [[removed], [restrictedVisibility], [minApiLevel, maxApiLevel], [deprecated], [sinceVersion]]

theorem tiers_eq : tiers = (List.range 5).map fun n => all.filter fun k => k.severity = n := by decide

theorem mem_all (k : Kind) : k ∈ all := by
  cases k <;> decide

end Kind

namespace Query

/-- The shape of the findings for a signature. -/
structure Shape (s : Signature) (fs : List Finding) : Prop where
  /-- The findings of one tier follow those of the tier before. -/
  tiers : (Kind.tiers.flatMap fun ks => fs.filter fun f => f.kind ∈ ks) = fs
  /-- In a tier, those of the signature itself come first and those of wider owners after those of nearer ones. -/
  precedes : ∀ ks ∈ Kind.tiers, (fs.filter fun f => f.kind ∈ ks).Pairwise Precedes
  nodup_payloads : (fs.map Finding.payload).Nodup
  length_le_one : ∀ k ∈ [Kind.removed, .restrictedVisibility, .minApiLevel, .maxApiLevel],
    (fs.filter fun f => f.kind = k).length ≤ 1
  /-- What the signature itself has of a kind hides what owners have of it. -/
  hides : ∀ f ∈ fs, ∀ g ∈ fs, f.kind = g.kind → f.scope = .exact → g.scope = .exact
  encloses : ∀ f ∈ fs, ∀ o, f.scope = .under o → o.segments <+: s.owner.segments

theorem filter_severity (n : Nat) (fs : List Finding) :
    (fs.filter fun f => f.kind ∈ Kind.all.filter fun k => k.severity = n) = tier fs n := by
  apply List.filter_congr
  intro f _
  rw [decide_eq_decide, List.mem_filter, decide_eq_true_eq]
  exact and_iff_right f.kind.mem_all

theorem flatMap_tiers (fs : List Finding) :
    (Kind.tiers.flatMap fun ks => fs.filter fun f => f.kind ∈ ks) = (List.range 5).flatMap (tier fs) := by
  rw [Kind.tiers_eq, List.flatMap_map]
  congr 1
  funext n
  exact filter_severity n fs

theorem nodup_payload_distinctPayloads (fs : List Finding) :
    ((distinctPayloads fs).map Finding.payload).Nodup := by
  induction fs using List.reverseRecOn with
  | nil => exact List.nodup_nil
  | append_singleton fs f ih =>
    rw [distinctPayloads_concat]
    split
    · exact ih
    · rename_i hnew
      refine Sequences.nodup_map_concat.2 ⟨ih, fun hmem => hnew ?_⟩
      obtain ⟨g, hg, hp⟩ := List.mem_map.1 hmem
      exact List.any_eq_true.2 ⟨g, hg, decide_eq_true hp⟩

theorem nodup_payload_findingsAt (d : Dataset) (s : Signature) (strict : Bool) (target : Option UInt32) :
    ((findingsAt d s strict target).map Finding.payload).Nodup := by
  rw [findingsAt, bySeverity, ((List.mergeSort_perm _ _).map Finding.payload).nodup_iff]
  exact nodup_payload_distinctPayloads _

end Query

namespace Table

variable {t : Table} {s : Signature} {r q : Record} {a b : Scope}

/-- A record of the signature itself hides those of its kind on owners. -/
theorem Covers.eq_exact (h : t.Covers s r .exact) (hq : t.Covers s q b) (hk : r.kind = q.kind) : b = .exact := by
  cases b with
  | exact => rfl
  | under o => exact absurd hk (hq.2.2.2 r h.1 h.2)

theorem Visits.mem_ancestry {o : Owner} (h : t.Visits s o) : o ∈ s.owner.ancestry := by
  obtain ⟨inner, outer, ha, -⟩ := h
  rw [ha]
  exact List.mem_append_right _ List.mem_cons_self

/-- The walk does not go on from a level with an absolute rule. -/
theorem EndsAt.not_nearer {o p : Owner} (h : t.EndsAt p) (hp : t.Visits s p) (ho : t.Visits s o) :
    ¬(Scope.under p).Nearer (.under o) := by
  intro hlt
  obtain ⟨inner, outer, ha, hinner⟩ := ho
  have hpair := s.owner.pairwise_ancestry
  have hmem := hp.mem_ancestry
  rw [ha] at hpair hmem
  obtain hp | hp := List.mem_append.1 hmem
  · exact hinner p hp h
  · have hlater := (List.pairwise_cons.1 (List.pairwise_append.1 hpair).2.1).1
    obtain rfl | hp := List.mem_cons.1 hp
    · exact lt_irrefl _ hlt
    · exact lt_asymm hlt (hlater p hp)

/-- No two records of an absolute kind cover the signature through different scopes. -/
theorem Covers.not_nearer (hr : t.Covers s r a) (hq : t.Covers s q b) (hk : r.kind = q.kind)
    (habs : r.kind.isAbsolute = true) : ¬a.Nearer b := by
  cases a with
  | exact =>
    rw [hr.eq_exact hq hk]
    exact id
  | under p =>
    cases b with
    | exact => exact id
    | under o => exact EndsAt.not_nearer ⟨r, hr.1, hr.2.1, habs⟩ hr.2.2.1 hq.2.2.1

end Table

namespace Dataset.Represents

open Query

variable {d : Dataset} {t : Table} (h : d.Represents t) {s : Signature} {strict : Bool} {target : Option UInt32}

include h

/-- Each finding reports a record that covers the signature. -/
theorem exists_covers_of_mem {f : Finding} (hf : f ∈ findingsAt d s strict target) :
    ∃ r, t.Covers s r f.scope ∧ f.kind = r.kind := by
  rw [findingsAt, bySeverity, List.mem_mergeSort] at hf
  have hreports := (sublist_findings_reported strict target _).subset ((sublist_distinctPayloads _).subset hf)
  obtain ⟨c, hc, rfl⟩ := List.mem_map.1 hreports
  exact ⟨c.record, h.mem_candidates.1 hc, rfl⟩

theorem length_filter_candidates_le_one {k : Kind} (hk : k.isAbsolute = true) :
    ((candidates d s).filter fun c => c.record.kind = k).length ≤ 1 := by
  have hpair := h.pairwise_filter_kind_candidates k (s := s)
  have hmem : ∀ c ∈ (candidates d s).filter fun c => c.record.kind = k,
      t.Covers s c.record c.scope ∧ c.record.kind = k := fun c hc => by
    simpa [h.mem_candidates] using List.mem_filter.1 hc
  cases hcs : (candidates d s).filter fun c => c.record.kind = k with
  | nil => exact Nat.zero_le 1
  | cons a cs =>
    cases cs with
    | nil => exact le_refl 1
    | cons b cs =>
      rw [hcs] at hpair hmem
      obtain ⟨ha, hak⟩ := hmem a List.mem_cons_self
      obtain ⟨hb, hbk⟩ := hmem b (List.mem_cons_of_mem a List.mem_cons_self)
      have hnear := (List.pairwise_cons.1 hpair).1 b List.mem_cons_self
      exact absurd hnear (ha.not_nearer hb (hak.trans hbk.symm) (hak ▸ hk))

theorem length_filter_findingsAt_le_one {k : Kind} (hk : k.isAbsolute = true ∨ k.isApiBound = true) :
    ((findingsAt d s strict target).filter fun f => f.kind = k).length ≤ 1 := by
  by_cases hb : k.isApiBound = true
  · rw [filter_kind_findingsAt_of_isApiBound hb]
    exact Option.length_toList_le
  · have hle := h.length_filter_candidates_le_one (s := s) (hk.resolve_right hb)
    rw [filter_kind_findingsAt, selected, if_neg hb]
    apply (sublist_distinctPayloads _).length_le.trans
    rwa [List.length_map]

theorem shape_findingsAt : Shape s (findingsAt d s strict target) := by
  constructor
  · rw [flatMap_tiers, flatMap_tier_findingsAt]
  · intro ks hks
    rw [Kind.tiers_eq] at hks
    obtain ⟨n, -, rfl⟩ := List.mem_map.1 hks
    rw [filter_severity]
    exact h.pairwise_tier_findingsAt s strict target n
  · exact nodup_payload_findingsAt d s strict target
  · intro k hk
    apply h.length_filter_findingsAt_le_one
    revert k
    decide
  · intro f hf g hg hk hscope
    obtain ⟨r, hr, hfr⟩ := h.exists_covers_of_mem hf
    obtain ⟨q, hq, hgq⟩ := h.exists_covers_of_mem hg
    rw [hscope] at hr
    exact hr.eq_exact hq (hfr.symm.trans (hk.trans hgq))
  · intro f hf o hscope
    obtain ⟨r, hr, -⟩ := h.exists_covers_of_mem hf
    rw [hscope] at hr
    exact Owner.mem_ancestry.1 hr.2.2.1.mem_ancestry

end Dataset.Represents

namespace Query

theorem Context.exists_level {c : Context} (h : ∀ n, c.apiLevel = some n → 1 ≤ n) :
    ∃ target, c.level = .ok target := by
  obtain ⟨apiLevel, strict⟩ := c
  cases apiLevel with
  | none => exact ⟨none, rfl⟩
  | some n =>
    obtain ⟨target, htarget, -⟩ := Context.level_of_one_le (h n rfl) strict
    exact ⟨some target, htarget⟩

/-- The shape of every answer. For each table that loads, each signature and each context that knows no level or one
of at least one, there is an answer. The tiers come in their order, nearer findings before wider ones; no payload
is there twice, and no second finding of an absolute kind or of a bound; no finding on owners is of a kind that the
signature itself has; and each scope is a leading run of the names of its owner. -/
theorem findings_have_shape {t : Table} {digest : Option Digest} {d : Dataset}
    (h : Dataset.ofTable t digest = .ok d) (s : Signature) {context : Context}
    (hcontext : ∀ n, context.apiLevel = some n → 1 ≤ n) :
    ∃ fs, findings d s context = .ok fs ∧ Shape s fs := by
  obtain ⟨target, htarget⟩ := Context.exists_level hcontext
  have hd := Dataset.represents_of_ofTable h
  refine ⟨findingsAt d s context.strict target, by rw [findings, htarget]; rfl, hd.shape_findingsAt⟩

/-- A deprecated class in a restricted package, for a level below that of the package. Its own replacement hides the
deprecation of the package, and the removal of the outer package is not there. -/
theorem shape_of_findings_in_restricted_package :
    let inner : Owner := ⟨[⟨['a'], by decide⟩, ⟨['b'], by decide⟩], by decide⟩
    let s : Signature := ⟨⟨[⟨['a'], by decide⟩, ⟨['b'], by decide⟩, ⟨['C'], by decide⟩], by decide⟩, none⟩
    let rs : List Record :=
      [⟨.exact s, .deprecated (some "D"), .sdkLint, none⟩,
        ⟨.under inner, .minApiLevel 31, .mavenCentral, none⟩,
        ⟨.under inner, .restrictedVisibility .hidden, .mavenCentral, none⟩,
        ⟨.under inner, .deprecated none, .mavenCentral, none⟩,
        ⟨.under ⟨[⟨['a'], by decide⟩], by decide⟩, .removed none, .mavenCentral, none⟩]
    let t : Table :=
      ⟨[⟨.sdkLint, [⟨"a.b.C", [⟨.deprecated (some "D"), none⟩]⟩]⟩,
          ⟨.mavenCentral, [⟨"a.b.*", [⟨.minApiLevel 31, none⟩, ⟨.restrictedVisibility .hidden, none⟩,
            ⟨.deprecated none, none⟩]⟩, ⟨"a.*", [⟨.removed none, none⟩]⟩]⟩], [], []⟩
    let fs : List Finding :=
      [⟨.restrictedVisibility .hidden, .mavenCentral, none, .under inner⟩,
        ⟨.minApiLevel 31, .mavenCentral, none, .under inner⟩, ⟨.deprecated (some "D"), .sdkLint, none, .exact⟩]
    Dataset.ofTable t none = .ok (.made none rs []) ∧
      findings (.made none rs []) s ⟨some 30, false⟩ = .ok fs ∧ Shape s fs := by
  intro inner s rs t fs
  have hd : Dataset.ofTable t none = .ok (.made none rs []) := rfl
  have hfound : findings (.made none rs []) s ⟨some 30, false⟩ = .ok fs :=
    congrArg Except.ok ((bySeverity_eq_flatMap _).trans (by decide +kernel))
  have hlevel : ∀ n, (⟨some 30, false⟩ : Context).apiLevel = some n → 1 ≤ n := by
    intro n hn
    obtain rfl := Option.some.inj hn
    decide
  obtain ⟨fs', hfs', hshape⟩ := findings_have_shape hd s hlevel
  obtain rfl := Except.ok.inj (hfs'.symm.trans hfound)
  exact ⟨hd, hfound, hshape⟩

end Query

end ApiRules
