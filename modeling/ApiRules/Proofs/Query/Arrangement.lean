import Mathlib.Data.List.Permutation
import ApiRules.Proofs.Query.Bounds
import ApiRules.Proofs.Query.Tiers

/-!
What findings do not depend on. Two tables that have the same records for a signature and for the levels that the
walk visits give the same findings, however they are arranged and whatever else they have. Only a minimum and a
maximum of one scope may trade places.
-/
namespace ApiRules

namespace Table

/-- The tables have the same records of the pattern. -/
def AgreeOn (t₁ t₂ : Table) (p : Pattern) : Prop := ∀ r : Record, r.pattern = p → (t₁.Has r ↔ t₂.Has r)

/-- The tables have the same records of the signature and of each level that the walk through the first
visits. -/
structure Agree (t₁ t₂ : Table) (s : Signature) : Prop where
  exact : t₁.AgreeOn t₂ (.exact s)
  under : ∀ o, t₁.Visits s o → t₁.AgreeOn t₂ (.under o)

variable {t₁ t₂ : Table} {s : Signature}

theorem AgreeOn.endsAt_iff {o : Owner} (h : t₁.AgreeOn t₂ (.under o)) : t₁.EndsAt o ↔ t₂.EndsAt o := by
  apply exists_congr
  intro r
  constructor
  · rintro ⟨hr, hp, hk⟩
    exact ⟨(h r hp).1 hr, hp, hk⟩
  · rintro ⟨hr, hp, hk⟩
    exact ⟨(h r hp).2 hr, hp, hk⟩

theorem Agree.not_endsAt_of_inner (h : t₁.Agree t₂ s) {inner outer : List Owner}
    (ha : s.owner.ancestry = inner ++ outer) (hinner : ∀ p ∈ inner, ¬t₂.EndsAt p) :
    ∀ p ∈ inner, ¬t₁.EndsAt p := by
  induction inner using List.reverseRecOn generalizing outer with
  | nil => simp
  | append_singleton inner o ih =>
    rw [List.append_assoc, List.singleton_append] at ha
    have hbefore := ih ha fun p hp => hinner p (List.mem_append_left _ hp)
    intro p hp
    obtain hp | hp := List.mem_append.1 hp
    · exact hbefore p hp
    · obtain rfl := List.mem_singleton.1 hp
      rw [(h.under p ⟨inner, outer, ha, hbefore⟩).endsAt_iff]
      exact hinner p (List.mem_append_right _ List.mem_cons_self)

theorem Agree.visits_iff (h : t₁.Agree t₂ s) {o : Owner} : t₁.Visits s o ↔ t₂.Visits s o := by
  constructor
  · rintro ⟨inner, outer, ha, hinner⟩
    refine ⟨inner, outer, ha, fun p hp => ?_⟩
    obtain ⟨near, far, rfl⟩ := List.append_of_mem hp
    have hvisits : t₁.Visits s p :=
      ⟨near, far ++ o :: outer, by simp [ha], fun q hq => hinner q (List.mem_append_left _ hq)⟩
    rw [← (h.under p hvisits).endsAt_iff]
    exact hinner p hp
  · rintro ⟨inner, outer, ha, hinner⟩
    exact ⟨inner, outer, ha, h.not_endsAt_of_inner ha hinner⟩

/-- The same records cover the signature. -/
theorem Agree.covers_iff (h : t₁.Agree t₂ s) {r : Record} {scope : Scope} :
    t₁.Covers s r scope ↔ t₂.Covers s r scope := by
  have hshadow : (∀ q, t₁.Has q → q.pattern = .exact s → q.kind ≠ r.kind) ↔
      ∀ q, t₂.Has q → q.pattern = .exact s → q.kind ≠ r.kind := by
    constructor
    · intro hq q hr hp
      exact hq q ((h.exact q hp).2 hr) hp
    · intro hq q hr hp
      exact hq q ((h.exact q hp).1 hr) hp
  cases scope with
  | exact =>
    constructor
    · rintro ⟨hr, hp⟩
      exact ⟨(h.exact r hp).1 hr, hp⟩
    · rintro ⟨hr, hp⟩
      exact ⟨(h.exact r hp).2 hr, hp⟩
  | under o =>
    constructor
    · rintro ⟨hr, hp, hvisits, hk⟩
      exact ⟨(h.under o hvisits r hp).1 hr, hp, h.visits_iff.1 hvisits, hshadow.1 hk⟩
    · rintro ⟨hr, hp, hvisits, hk⟩
      have hvisits := h.visits_iff.2 hvisits
      exact ⟨(h.under o hvisits r hp).2 hr, hp, hvisits, hshadow.2 hk⟩

end Table

namespace Query

theorem map_finding_zipIdx (cs : List Candidate) :
    (cs.zipIdx.map fun c => Finding.ofRecord c.1.record c.1.scope) = cs.map Candidate.finding := by
  conv_rhs => rw [← List.zipIdx_map_fst 0 cs, List.map_map]
  rfl

theorem sublist_distinctPayloads (fs : List Finding) : (distinctPayloads fs).Sublist fs := by
  induction fs using List.reverseRecOn with
  | nil => exact List.Sublist.refl _
  | append_singleton fs f ih =>
    rw [distinctPayloads_concat]
    split
    · exact ih.trans (List.sublist_append_left _ _)
    · exact ih.append (List.Sublist.refl _)

theorem sublist_findings_reported (strict : Bool) (target : Option UInt32) (cs : List Candidate) :
    ((cs.zipIdx.filter (reported strict target cs)).map fun c => Finding.ofRecord c.1.record c.1.scope).Sublist
      (cs.map Candidate.finding) := by
  rw [← map_finding_zipIdx]
  exact List.filter_sublist.map _

/-- A finding is at least as near as another one. -/
def Precedes (f g : Finding) : Prop := f.scope = g.scope ∨ f.scope.Nearer g.scope

theorem Precedes.antisymm {f g : Finding} (h : Precedes f g) (h' : Precedes g f) : f.scope = g.scope := by
  obtain h | h := h
  · exact h
  · obtain h' | h' := h'
    · exact h'.symm
    · exact absurd h' h.asymm

/-- The third tier is made of the bounds. -/
theorem tier_two_perm (fs : List Finding) : (tier fs 2).Perm
    ((fs.filter fun f => f.kind = .minApiLevel) ++ fs.filter fun f => f.kind = .maxApiLevel) := by
  have hmin : ((tier fs 2).filter fun f => f.kind = .minApiLevel) = fs.filter fun f => f.kind = .minApiLevel := by
    rw [tier, List.filter_filter]
    apply List.filter_congr
    intro f _
    cases f.kind <;> rfl
  have hmax : ((tier fs 2).filter fun f => !decide (f.kind = .minApiLevel)) =
      fs.filter fun f => f.kind = .maxApiLevel := by
    rw [tier, List.filter_filter]
    apply List.filter_congr
    intro f _
    cases f.kind <;> rfl
  rw [← hmin, ← hmax]
  exact (List.filter_append_perm _ _).symm

/-- The lists are the same but for a minimum and a maximum of one scope, side by side, that trade places. -/
def BoundsSwapped (fs gs : List Finding) : Prop :=
  ∃ before f g after, fs = before ++ f :: g :: after ∧ gs = before ++ g :: f :: after ∧ f.scope = g.scope ∧
    (f.kind = .minApiLevel ∧ g.kind = .maxApiLevel ∨ f.kind = .maxApiLevel ∧ g.kind = .minApiLevel)

theorem BoundsSwapped.append {fs gs : List Finding} (h : BoundsSwapped fs gs) (before after : List Finding) :
    BoundsSwapped (before ++ (fs ++ after)) (before ++ (gs ++ after)) := by
  obtain ⟨before', f, g, after', rfl, rfl, hscope, hkind⟩ := h
  exact ⟨before ++ before', f, g, after' ++ after, by simp, by simp, hscope, hkind⟩

/-- A minimum and a maximum can be listed in two ways. If their scopes differ, the nearer one comes first. -/
theorem eq_or_boundsSwapped {fs gs : List Finding} {minimum maximum : Option Finding}
    (hf : fs.Perm (minimum.toList ++ maximum.toList)) (hg : gs.Perm (minimum.toList ++ maximum.toList))
    (hfs : fs.Pairwise Precedes) (hgs : gs.Pairwise Precedes) (hmin : ∀ f, minimum = some f → f.kind = .minApiLevel)
    (hmax : ∀ f, maximum = some f → f.kind = .maxApiLevel) : fs = gs ∨ BoundsSwapped fs gs := by
  have hpair : ∀ {f g : Finding}, [f, g].Pairwise Precedes → Precedes f g := fun h =>
    (List.pairwise_cons.1 h).1 _ List.mem_cons_self
  cases minimum with
  | none =>
    cases maximum with
    | none => exact Or.inl (hf.eq_nil.trans hg.eq_nil.symm)
    | some g => exact Or.inl ((List.perm_singleton.1 hf).trans (List.perm_singleton.1 hg).symm)
  | some f =>
    cases maximum with
    | none => exact Or.inl ((List.perm_singleton.1 hf).trans (List.perm_singleton.1 hg).symm)
    | some g =>
      have hfk := hmin f rfl
      have hgk := hmax g rfl
      obtain rfl | rfl := List.perm_pair.1 hf
      · obtain rfl | rfl := List.perm_pair.1 hg
        · exact Or.inl rfl
        · have hscope := (hpair hfs).antisymm (hpair hgs)
          exact Or.inr ⟨[], f, g, [], rfl, rfl, hscope, Or.inl ⟨hfk, hgk⟩⟩
      · obtain rfl | rfl := List.perm_pair.1 hg
        · have hscope := (hpair hfs).antisymm (hpair hgs)
          exact Or.inr ⟨[], g, f, [], rfl, rfl, hscope, Or.inr ⟨hgk, hfk⟩⟩
        · exact Or.inl rfl

end Query

namespace Dataset.Represents

open Query

variable {d : Dataset} {t : Table} (h : d.Represents t) (s : Signature) (strict : Bool)
  (target : Option UInt32)

include h

/-- The findings of a tier stand from the nearest scope to the widest. -/
theorem pairwise_tier_findingsAt (n : Nat) : (tier (findingsAt d s strict target) n).Pairwise Precedes := by
  have hcands : ((candidates d s).map Candidate.finding).Pairwise Precedes := by
    apply List.pairwise_map.2
    apply h.pairwise_candidates.imp
    rintro a b (hnear | ⟨hscope, -⟩)
    · exact Or.inr hnear
    · exact Or.inl hscope
  have hshown := sublist_findings_reported strict target (candidates d s)
  rw [findingsAt, tier_bySeverity]
  exact hcands.sublist (List.filter_sublist.trans ((sublist_distinctPayloads _).trans hshown))

end Dataset.Represents

namespace Query

variable {d₁ d₂ : Dataset} {t₁ t₂ : Table} {s : Signature}

theorem filter_kind_candidates_eq (h₁ : d₁.Represents t₁) (h₂ : d₂.Represents t₂) (h : t₁.Agree t₂ s)
    (k : Kind) : ((candidates d₁ s).filter fun c => c.record.kind = k) =
      (candidates d₂ s).filter fun c => c.record.kind = k := by
  apply Sequences.eq_of_pairwise_of_mem_iff (fun a b hab => hab.asymm)
    (h₁.pairwise_filter_kind_candidates k) (h₂.pairwise_filter_kind_candidates k)
  intro c
  rw [List.mem_filter, List.mem_filter, h₁.mem_candidates, h₂.mem_candidates, h.covers_iff]

/-- The findings of tables that agree are the same but for a trade of bounds. -/
theorem findingsAt_eq_or_boundsSwapped (h₁ : d₁.Represents t₁) (h₂ : d₂.Represents t₂) (h : t₁.Agree t₂ s)
    (strict : Bool) (target : Option UInt32) : findingsAt d₁ s strict target = findingsAt d₂ s strict target ∨
      BoundsSwapped (findingsAt d₁ s strict target) (findingsAt d₂ s strict target) := by
  have hcands := filter_kind_candidates_eq h₁ h₂ h
  have hkind : ∀ k, ((findingsAt d₁ s strict target).filter fun f => f.kind = k) =
      (findingsAt d₂ s strict target).filter fun f => f.kind = k := by
    intro k
    rw [filter_kind_findingsAt, filter_kind_findingsAt, hcands]
  have htightest : ∀ k, tightest d₂ s k = tightest d₁ s k := by
    intro k
    rw [tightest, tightest, hcands]
  have hperm₁ := tier_two_perm (findingsAt d₁ s strict target)
  have hperm₂ := tier_two_perm (findingsAt d₂ s strict target)
  rw [filter_kind_findingsAt_of_isApiBound rfl, filter_kind_findingsAt_of_isApiBound rfl] at hperm₁ hperm₂
  rw [htightest, htightest] at hperm₂
  have htier := eq_or_boundsSwapped hperm₁ hperm₂ (h₁.pairwise_tier_findingsAt s strict target 2)
    (h₂.pairwise_tier_findingsAt s strict target 2)
    (fun f hf => kind_of_tightest (Option.filter_eq_some_iff.1 hf).1)
    (fun f hf => kind_of_tightest (Option.filter_eq_some_iff.1 hf).1)
  have hfs₁ := findingsAt_eq_append d₁ s strict target
  have hfs₂ := findingsAt_eq_append d₂ s strict target
  simp only [← hkind] at hfs₂
  rw [hfs₁, hfs₂]
  obtain htier | htier := htier
  · exact Or.inl (by rw [htier])
  · exact Or.inr (htier.append _ _)

end Query

open Query

/-- Findings do not depend on how a table is arranged or on records that do not cover the signature. For two
tables that have the same records of the signature and of the levels that the walk visits, every context gives
the same error or the same findings, but for a minimum and a maximum of one scope that may trade places. -/
theorem findings_eq_of_agree {t₁ t₂ : Table} {g₁ g₂ : Option Digest} {d₁ d₂ : Dataset}
    (h₁ : Dataset.ofTable t₁ g₁ = .ok d₁) (h₂ : Dataset.ofTable t₂ g₂ = .ok d₂) {s : Signature}
    (h : t₁.Agree t₂ s) (context : Context) :
    findings d₁ s context = findings d₂ s context ∨
      ∃ fs₁ fs₂, findings d₁ s context = .ok fs₁ ∧ findings d₂ s context = .ok fs₂ ∧
        BoundsSwapped fs₁ fs₂ := by
  have hr₁ := Dataset.represents_of_ofTable h₁
  have hr₂ := Dataset.represents_of_ofTable h₂
  cases hlevel : context.level with
  | error e =>
    refine Or.inl ?_
    rw [findings, findings, hlevel]
    rfl
  | ok target =>
    have hfs₁ : findings d₁ s context = .ok (findingsAt d₁ s context.strict target) := by
      rw [findings, hlevel]
      rfl
    have hfs₂ : findings d₂ s context = .ok (findingsAt d₂ s context.strict target) := by
      rw [findings, hlevel]
      rfl
    rw [hfs₁, hfs₂]
    obtain heq | hswap := findingsAt_eq_or_boundsSwapped hr₁ hr₂ h context.strict target
    · exact Or.inl (congrArg Except.ok heq)
    · exact Or.inr ⟨_, _, rfl, rfl, hswap⟩

/-- A package states two bounds and a removal. In another order, another spelling, with a constant and with a rule
of the outer package, where the walk does not come to, the bounds trade places. -/
theorem findings_of_rearranged_table :
    let outer : Owner := ⟨[⟨['a'], by decide⟩], by decide⟩
    let inner : Owner := ⟨[⟨['a'], by decide⟩, ⟨['b'], by decide⟩], by decide⟩
    let s : Signature := ⟨inner, none⟩
    let rs₁ : List Record :=
      [⟨.under inner, .minApiLevel 21, .sdkLint, none⟩, ⟨.under inner, .maxApiLevel 19, .sdkLint, none⟩,
        ⟨.under inner, .removed none, .sdkLint, none⟩]
    let rs₂ : List Record :=
      [⟨.under outer, .deprecated none, .googleMaven, none⟩, ⟨.under inner, .maxApiLevel 19, .sdkLint, none⟩,
        ⟨.under inner, .removed none, .sdkLint, none⟩, ⟨.under inner, .minApiLevel 21, .sdkLint, none⟩]
    let t₁ : Table :=
      ⟨[⟨.sdkLint, [⟨"a.b.*", [⟨.minApiLevel 21, none⟩, ⟨.maxApiLevel 19, none⟩, ⟨.removed none, none⟩]⟩]⟩], [], []⟩
    let t₂ : Table :=
      ⟨[⟨.googleMaven, [⟨"a.*", [⟨.deprecated none, none⟩]⟩]⟩,
          ⟨.sdkLint, [⟨"a/b.*", [⟨.maxApiLevel 19, none⟩, ⟨.removed none, none⟩]⟩,
            ⟨" a.b.*", [⟨.minApiLevel 21, none⟩]⟩]⟩], [], [⟨"a.B", "1"⟩]⟩
    Dataset.ofTable t₁ none = .ok (.made none rs₁ []) ∧ Dataset.ofTable t₂ none = .ok (.made none rs₂ []) ∧
      t₁.Agree t₂ s ∧ ∃ fs₁ fs₂, findings (.made none rs₁ []) s ⟨some 20, false⟩ = .ok fs₁ ∧
        findings (.made none rs₂ []) s ⟨some 20, false⟩ = .ok fs₂ ∧ BoundsSwapped fs₁ fs₂ := by
  intro outer inner s rs₁ rs₂ t₁ t₂
  have h₁ : Dataset.ofTable t₁ none = .ok (.made none rs₁ []) := rfl
  have h₂ : Dataset.ofTable t₂ none = .ok (.made none rs₂ []) := rfl
  have hr₁ := Dataset.represents_of_ofTable h₁
  have hr₂ := Dataset.represents_of_ofTable h₂
  have hp : ∀ p : Pattern, (∀ r ∈ rs₁, r.pattern = p → r ∈ rs₂) → (∀ r ∈ rs₂, r.pattern = p → r ∈ rs₁) →
      t₁.AgreeOn t₂ p := by
    intro p hsub hsup r hr
    rw [← hr₁.mem_records, ← hr₂.mem_records, Dataset.records_made, Dataset.records_made]
    exact ⟨fun hm => hsub r hm hr, fun hm => hsup r hm hr⟩
  have hvisited : (visited ((Dataset.made none rs₁ []).lookupAncestry s)).map Prod.fst = [inner] := by decide +kernel
  have hagree : t₁.Agree t₂ s := by
    constructor
    · exact hp _ (by decide) (by decide)
    · intro o ho
      have hm := List.mem_map_of_mem (f := Prod.fst) (hr₁.mem_visited_iff.2 ⟨ho, rfl⟩)
      rw [hvisited] at hm
      obtain rfl := List.mem_singleton.1 hm
      exact hp _ (by decide) (by decide)
  have hfs₁ : findings (.made none rs₁ []) s ⟨some 20, false⟩ =
      .ok [⟨.removed none, .sdkLint, none, .under inner⟩, ⟨.minApiLevel 21, .sdkLint, none, .under inner⟩,
        ⟨.maxApiLevel 19, .sdkLint, none, .under inner⟩] :=
    congrArg Except.ok ((bySeverity_eq_flatMap _).trans (by decide +kernel))
  have hfs₂ : findings (.made none rs₂ []) s ⟨some 20, false⟩ =
      .ok [⟨.removed none, .sdkLint, none, .under inner⟩, ⟨.maxApiLevel 19, .sdkLint, none, .under inner⟩,
        ⟨.minApiLevel 21, .sdkLint, none, .under inner⟩] :=
    congrArg Except.ok ((bySeverity_eq_flatMap _).trans (by decide +kernel))
  refine ⟨h₁, h₂, hagree, (findings_eq_of_agree h₁ h₂ hagree ⟨some 20, false⟩).resolve_left ?_⟩
  rw [hfs₁, hfs₂]
  simp

end ApiRules
