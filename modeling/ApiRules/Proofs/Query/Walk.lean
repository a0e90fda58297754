import ApiRules.Proofs.Query.Coverage
import ApiRules.Proofs.Query.Tiers

/-!
What is found of the rules without levels. A payload is found if a record with it covers the signature, and the
nearest such record is the one that is reported. The level of the place and strictness play no part.
-/
namespace ApiRules

namespace Query

theorem selected_of_not_isApiBound {k : Kind} (hk : k.isApiBound = false) (strict : Bool)
    (target : Option UInt32) (cs : List Candidate) : selected strict target k cs = cs := by
  simp [selected, hk]

/-- Of a payload that is no bound the first candidate with it is reported. -/
theorem filter_payload_findingsAt {p : Payload} (hp : p.kind.isApiBound = false) (d : Dataset)
    (s : Signature) (strict : Bool) (target : Option UInt32) :
    ((findingsAt d s strict target).filter fun f => f.payload = p) =
      ((((candidates d s).filter fun c => c.record.kind = p.kind).find? fun c =>
        c.record.payload = p).map Candidate.finding).toList := by
  have hkind : ((findingsAt d s strict target).filter fun f => f.payload = p) =
      ((findingsAt d s strict target).filter fun f => f.kind = p.kind).filter fun f => f.payload = p := by
    rw [List.filter_filter]
    apply List.filter_congr
    intro f _
    by_cases hf : f.payload = p
    · simp [hf, Finding.kind]
    · simp [hf]
  rw [hkind, filter_kind_findingsAt, selected_of_not_isApiBound hp, filter_payload_distinctPayloads,
    List.find?_map]
  rfl

/-- The findings that are no bounds do not depend on the place. -/
theorem filter_not_isApiBound_findingsAt_eq (d : Dataset) (s : Signature) (strict strict' : Bool)
    (target target' : Option UInt32) :
    ((findingsAt d s strict target).filter fun f => !f.kind.isApiBound) =
      (findingsAt d s strict' target').filter fun f => !f.kind.isApiBound := by
  have hkind : ∀ k : Kind, k.isApiBound = false →
      ((findingsAt d s strict target).filter fun f => f.kind = k) =
        (findingsAt d s strict' target').filter fun f => f.kind = k := by
    intro k hk
    rw [filter_kind_findingsAt, filter_kind_findingsAt, selected_of_not_isApiBound hk,
      selected_of_not_isApiBound hk]
  rw [filter_not_isApiBound_findingsAt, filter_not_isApiBound_findingsAt, hkind _ rfl, hkind _ rfl,
    hkind _ rfl, hkind _ rfl]

theorem exists_level_of_findings {d : Dataset} {s : Signature} {c : Context} {fs : List Finding}
    (h : findings d s c = .ok fs) : ∃ target, fs = findingsAt d s c.strict target := by
  obtain ⟨target, -, hfs⟩ := bind_eq_ok_iff.1 h
  exact ⟨target, (Except.ok.inj hfs).symm⟩

end Query

namespace Dataset.Represents

open Query

variable {d : Dataset} {t : Table} (h : d.Represents t) {s : Signature} {strict : Bool}
  {target : Option UInt32} {p : Payload} (hp : p.kind.isApiBound = false)

include h hp

theorem exists_payload_iff : (∃ f ∈ findingsAt d s strict target, f.payload = p) ↔ t.Applies s p := by
  have hfilter := filter_payload_findingsAt hp d s strict target
  rw [h.applies_iff]
  constructor
  · rintro ⟨f, hf, hfp⟩
    have hmem : f ∈ (findingsAt d s strict target).filter fun f => f.payload = p :=
      List.mem_filter.2 ⟨hf, decide_eq_true hfp⟩
    rw [hfilter, Option.mem_toList] at hmem
    obtain ⟨c, hc, -⟩ := Option.map_eq_some_iff.1 hmem
    exact ⟨c, List.mem_of_find?_eq_some hc, by simpa using List.find?_some hc⟩
  · rintro ⟨c, hc, hcp⟩
    have hsome : (((candidates d s).filter fun c => c.record.kind = p.kind).find? fun c =>
        c.record.payload = p).isSome := List.find?_isSome.2 ⟨c, hc, decide_eq_true hcp⟩
    obtain ⟨b, hb⟩ := Option.isSome_iff_exists.1 hsome
    rw [hb] at hfilter
    have hmem : b.finding ∈ (findingsAt d s strict target).filter fun f => f.payload = p := by
      rw [hfilter]
      exact List.mem_singleton_self _
    obtain ⟨hmem, hbp⟩ := List.mem_filter.1 hmem
    exact ⟨b.finding, hmem, of_decide_eq_true hbp⟩

/-- What is found of a payload is one finding, of the nearest record with it. -/
theorem reports_of_mem {f : Finding} (hf : f ∈ findingsAt d s strict target) (hfp : f.payload = p) :
    t.Reports s f ∧ ((findingsAt d s strict target).filter fun g => g.payload = p) = [f] := by
  have hmem : f ∈ (findingsAt d s strict target).filter fun g => g.payload = p :=
    List.mem_filter.2 ⟨hf, decide_eq_true hfp⟩
  rw [filter_payload_findingsAt hp, Option.mem_toList] at hmem
  obtain ⟨c, hc, rfl⟩ := Option.map_eq_some_iff.1 hmem
  obtain ⟨hcp, before, after, hcs, hbefore⟩ := List.find?_eq_some_iff_append.1 hc
  have hcp : c.record.payload = p := of_decide_eq_true hcp
  constructor
  · apply h.reports_of_filter_kind hcs
    intro b hb
    simpa [hcp] using hbefore b hb
  · rw [filter_payload_findingsAt hp, hc]
    rfl

end Dataset.Represents

open Query

/-- What is found of the rules without levels. A finding with a payload is there if a record with the payload
covers the signature. It is one finding then, of the nearest such record. No context changes these findings. -/
theorem findings_of_nearest_records {t : Table} {digest : Option Digest} {d : Dataset}
    (h : Dataset.ofTable t digest = .ok d) (s : Signature) {context : Context} {target : Option UInt32}
    (hcontext : context.level = .ok target) :
    ∃ fs, findings d s context = .ok fs ∧
      (∀ p : Payload, p.kind.isApiBound = false →
        ((∃ f ∈ fs, f.payload = p) ↔ t.Applies s p) ∧
        ∀ f ∈ fs, f.payload = p → t.Reports s f ∧ (fs.filter fun g => g.payload = p) = [f]) ∧
      ∀ other fs', findings d s other = .ok fs' →
        (fs'.filter fun f => !f.kind.isApiBound) = fs.filter fun f => !f.kind.isApiBound := by
  have hd := Dataset.represents_of_ofTable h
  refine ⟨findingsAt d s context.strict target, by rw [findings, hcontext]; rfl, ?_, ?_⟩
  · intro p hp
    exact ⟨hd.exists_payload_iff hp, fun f hf hfp => hd.reports_of_mem hp hf hfp⟩
  · intro other fs' hfs'
    obtain ⟨target', rfl⟩ := exists_level_of_findings hfs'
    exact filter_not_isApiBound_findingsAt_eq d s _ _ _ _

/-- A deprecated class in a restricted package. Its own replacement hides what the package says, and the walk
does not come to the removal of the outer package. -/
theorem findings_of_class_in_restricted_package :
    let outer : Owner := ⟨[⟨['a'], by decide⟩], by decide⟩
    let inner : Owner := ⟨[⟨['a'], by decide⟩, ⟨['b'], by decide⟩], by decide⟩
    let s : Signature := ⟨⟨[⟨['a'], by decide⟩, ⟨['b'], by decide⟩, ⟨['C'], by decide⟩], by decide⟩, none⟩
    let rs : List Record :=
      [⟨.exact s, .deprecated (some "D"), .sdkLint, none⟩,
        ⟨.under outer, .removed none, .mavenCentral, none⟩,
        ⟨.under inner, .restrictedVisibility .hidden, .mavenCentral, some "lib"⟩,
        ⟨.under inner, .deprecated none, .mavenCentral, none⟩]
    let t : Table :=
      ⟨[⟨.sdkLint, [⟨"a.b.C", [⟨.deprecated (some "D"), none⟩]⟩]⟩,
          ⟨.mavenCentral, [⟨"a.*", [⟨.removed none, none⟩]⟩,
            ⟨"a.b.*", [⟨.restrictedVisibility .hidden, some "lib"⟩, ⟨.deprecated none, none⟩]⟩]⟩], [], []⟩
    let f : Finding := ⟨.restrictedVisibility .hidden, .mavenCentral, some "lib", .under inner⟩
    Dataset.ofTable t none = .ok (.made none rs []) ∧
      findings (.made none rs []) s ⟨some 30, true⟩ = .ok [f, ⟨.deprecated (some "D"), .sdkLint, none, .exact⟩] ∧
      t.Reports s f ∧ ¬t.Applies s (.removed none) ∧ ¬t.Applies s (.deprecated none) := by
  intro outer inner s rs t f
  have hd : Dataset.ofTable t none = .ok (.made none rs []) := rfl
  have hl : (⟨some 30, true⟩ : Context).level = .ok (some 30) := rfl
  have hfound : findings (.made none rs []) s ⟨some 30, true⟩ =
      .ok [f, ⟨.deprecated (some "D"), .sdkLint, none, .exact⟩] :=
    congrArg Except.ok ((bySeverity_eq_flatMap _).trans (by decide +kernel))
  obtain ⟨fs, hfs, hpayload, -⟩ := findings_of_nearest_records hd s hl
  obtain rfl := Except.ok.inj (hfs.symm.trans hfound)
  have hf := ((hpayload f.payload rfl).2 f List.mem_cons_self rfl).1
  refine ⟨hd, hfound, hf, ?_, ?_⟩
  · rw [← (hpayload (.removed none) rfl).1]
    simp [f]
  · rw [← (hpayload (.deprecated none) rfl).1]
    simp [f]

end ApiRules
