import ApiRules.Proofs.Query.Coverage
import ApiRules.Proofs.Query.Tiers

/-!
What is found of the API level bounds. Of the minimums that cover a signature the greatest one is found if the
target is below it, of the maximums the least one if the target is above it.
-/
namespace ApiRules

/-- The level of an API bound. -/
def Finding.level (f : Finding) : UInt32 := f.payload.bound?.getD 0

namespace Query

/-- What reports the tightest bound of a kind. -/
def tightest (d : Dataset) (s : Signature) (k : Kind) : Option Finding :=
  (((candidates d s).filter fun c => c.record.kind = k).argmax Candidate.tightness).map Candidate.finding

theorem kind_of_tightest {d : Dataset} {s : Signature} {k : Kind} {f : Finding}
    (hf : tightest d s k = some f) : f.kind = k := by
  obtain ⟨c, hc, rfl⟩ := Option.map_eq_some_iff.1 hf
  have hk : c.record.kind = k := by simpa using (List.mem_filter.1 (List.argmax_mem hc)).2
  exact hk

/-- Of a kind of bounds the tightest is found if it is violated. -/
theorem filter_kind_findingsAt_of_isApiBound {k : Kind} (hk : k.isApiBound = true) (d : Dataset)
    (s : Signature) (strict : Bool) (target : Option UInt32) :
    ((findingsAt d s strict target).filter fun f => f.kind = k) =
      ((tightest d s k).filter fun f => violated strict target k f.level).toList := by
  rw [filter_kind_findingsAt, selected, if_pos hk, tightest]
  cases ((candidates d s).filter fun c => c.record.kind = k).argmax Candidate.tightness with
  | none => rfl
  | some c =>
    have hl : c.finding.level = c.record.level := rfl
    by_cases hv : violated strict target k c.record.level = true
    · simp [distinctPayloads, hv, hl, Option.filter]
    · simp [distinctPayloads, hv, hl, Option.filter]

/-- A target that is outside a bound is outside every tighter one. -/
theorem violated_of_tightness_le {k : Kind} (hk : k.isApiBound = true) {q r : Record} (hq : q.kind = k)
    (hr : r.kind = k) (hle : q.payload.tightness ≤ r.payload.tightness) {strict : Bool}
    {target : Option UInt32} (hv : violated strict target k q.level = true) :
    violated strict target k r.level = true := by
  cases target with
  | none => exact hv
  | some n =>
    cases k with
    | minApiLevel =>
      have hle := (Record.tightness_le_iff_of_min hr hq).1 hle
      have hlt : n < q.level := by simpa [violated] using hv
      simpa [violated] using UInt32.lt_of_lt_of_le hlt hle
    | maxApiLevel =>
      have hle := (Record.tightness_le_iff_of_max hr hq).1 hle
      have hlt : q.level < n := by simpa [violated] using hv
      simpa [violated] using UInt32.lt_of_le_of_lt hle hlt
    | _ => cases hk

/-- Of the findings of a kind there is this one if the condition holds, and otherwise none. -/
def Shows (fs : List Finding) (k : Kind) (only : Option Finding) (condition : Prop) : Prop :=
  ((∃ f ∈ fs, f.kind = k) ↔ condition) ∧
    ∀ f ∈ fs, f.kind = k → only = some f ∧ (fs.filter fun g => g.kind = k) = [f]

theorem shows_of_filter_kind {fs : List Finding} {k : Kind} {only : Option Finding}
    {keep : Finding → Bool} (h : (fs.filter fun f => f.kind = k) = (only.filter keep).toList)
    {condition : Prop} (hc : (∃ f, only = some f ∧ keep f = true) ↔ condition) :
    Shows fs k only condition := by
  have hmem : ∀ f, f ∈ fs ∧ f.kind = k ↔ only = some f ∧ keep f = true := by
    intro f
    have hf : f ∈ fs.filter (fun f => f.kind = k) ↔ _ := List.mem_filter
    rw [h, Option.mem_toList, Option.filter_eq_some_iff, decide_eq_true_eq] at hf
    exact hf.symm
  constructor
  · exact (exists_congr hmem).trans hc
  · intro f hf hk
    obtain ⟨hf, hkeep⟩ := (hmem f).1 ⟨hf, hk⟩
    refine ⟨hf, ?_⟩
    rw [h, hf, Option.filter_some_pos hkeep]
    rfl

end Query

namespace Dataset.Represents

open Query

variable {d : Dataset} {t : Table} (h : d.Represents t) {s : Signature} {k : Kind}

include h

theorem tightest_eq_none : tightest d s k = none ↔ ∀ r scope, t.Covers s r scope → r.kind ≠ k := by
  rw [tightest, Option.map_eq_none_iff, List.argmax_eq_none, List.filter_eq_nil_iff]
  constructor
  · intro hnone r scope hr hk
    exact hnone ⟨r, scope⟩ (h.mem_candidates.2 hr) (decide_eq_true hk)
  · intro hnone c hc hk
    exact hnone c.record c.scope (h.mem_candidates.1 hc) (of_decide_eq_true hk)

/-- The tightest bound covers the signature, it is the nearest record that states it, and no bound of its kind
that covers the signature is tighter. -/
theorem reports_tightest {f : Finding} (hf : tightest d s k = some f) :
    t.Reports s f ∧ f.kind = k ∧
      ∀ r scope, t.Covers s r scope → r.kind = k → r.payload.tightness ≤ f.payload.tightness := by
  obtain ⟨c, hc, rfl⟩ := Option.map_eq_some_iff.1 hf
  obtain ⟨before, after, hcs, hbefore, hafter⟩ := Sequences.exists_append_of_argmax hc
  refine ⟨h.reports_of_filter_kind hcs ?_, kind_of_tightest hf, ?_⟩
  · intro b hb he
    exact absurd (hbefore b hb) (by simp [Candidate.tightness, he])
  · intro r scope hr hk
    have hmem : (⟨r, scope⟩ : Candidate) ∈ (candidates d s).filter fun c => c.record.kind = k :=
      List.mem_filter.2 ⟨h.mem_candidates.2 hr, decide_eq_true hk⟩
    have hle := List.le_of_mem_argmax hmem hc
    exact hle

/-- The tightest bound is violated if any bound of its kind is. -/
theorem violated_tightest_iff (hk : k.isApiBound = true) {strict : Bool} {target : Option UInt32} :
    (∃ f, tightest d s k = some f ∧ violated strict target k f.level = true) ↔
      ∃ r scope, t.Covers s r scope ∧ r.kind = k ∧ violated strict target k r.level = true := by
  constructor
  · rintro ⟨f, hf, hv⟩
    obtain ⟨⟨r, hr, hfr, -⟩, hfk, -⟩ := h.reports_tightest hf
    have hp : f.payload = r.payload := congrArg Finding.payload hfr
    refine ⟨r, f.scope, hr, (congrArg Payload.kind hp).symm.trans hfk, ?_⟩
    rwa [Finding.level, hp] at hv
  · rintro ⟨q, scope, hq, hqk, hv⟩
    cases hf : tightest d s k with
    | none => exact absurd hqk (h.tightest_eq_none.1 hf q scope hq)
    | some f =>
      obtain ⟨⟨r, hr, hfr, -⟩, hfk, hle⟩ := h.reports_tightest hf
      have hp : f.payload = r.payload := congrArg Finding.payload hfr
      have hrk : r.kind = k := (congrArg Payload.kind hp).symm.trans hfk
      have hle := hle q scope hq hqk
      rw [hp] at hle
      refine ⟨f, rfl, ?_⟩
      rw [Finding.level, hp]
      exact violated_of_tightness_le hk hqk hrk hle hv

theorem shows_tightest (hk : k.isApiBound = true) (strict : Bool) (target : Option UInt32) :
    Shows (findingsAt d s strict target) k (tightest d s k)
      (∃ r scope, t.Covers s r scope ∧ r.kind = k ∧ violated strict target k r.level = true) :=
  shows_of_filter_kind (filter_kind_findingsAt_of_isApiBound hk d s strict target)
    (h.violated_tightest_iff hk)

end Dataset.Represents

namespace Table

/-- The finding reports the greatest minimum that covers the signature. -/
def ReportsMinimum (t : Table) (s : Signature) (f : Finding) : Prop :=
  ∃ m, f.payload = .minApiLevel m ∧ t.Reports s f ∧ ∀ n, t.Applies s (.minApiLevel n) → n ≤ m

/-- The finding reports the least maximum that covers the signature. -/
def ReportsMaximum (t : Table) (s : Signature) (f : Finding) : Prop :=
  ∃ m, f.payload = .maxApiLevel m ∧ t.Reports s f ∧ ∀ n, t.Applies s (.maxApiLevel n) → m ≤ n

/-- What is said of the levels of the records of a kind is said of the payloads of the kind. -/
theorem exists_level_iff {t : Table} {s : Signature} {k : Kind} (payload : UInt32 → Payload)
    (hkind : ∀ m, (payload m).kind = k) (hlevel : ∀ m, (payload m).bound? = some m)
    (hall : ∀ {p : Payload}, p.kind = k → ∃ m, p = payload m) {P : UInt32 → Prop} :
    (∃ r scope, t.Covers s r scope ∧ r.kind = k ∧ P r.level) ↔ ∃ m, t.Applies s (payload m) ∧ P m := by
  have hrecord : ∀ {r : Record} {m : UInt32}, r.payload = payload m → r.level = m := by
    intro r m hm
    rw [Record.level, hm, hlevel]
    rfl
  constructor
  · rintro ⟨r, scope, hr, hk, hP⟩
    obtain ⟨m, hm⟩ := hall hk
    exact ⟨m, ⟨r, scope, hr, hm⟩, hrecord hm ▸ hP⟩
  · rintro ⟨m, ⟨r, scope, hr, hm⟩, hP⟩
    exact ⟨r, scope, hr, (congrArg Payload.kind hm).trans (hkind m), hrecord hm ▸ hP⟩

end Table

namespace Query

/-- A level of at least one is known as it stands. -/
theorem Context.level_of_one_le {n : Int32} (hn : 1 ≤ n) (strict : Bool) :
    ∃ target, (⟨some n, strict⟩ : Context).level = .ok (some target) ∧ (target.toNat : Int) = n.toInt := by
  have hle : 1 ≤ n.toInt := Int32.le_iff_toInt_le.1 hn
  have hlt : ¬n < 1 := Int32.not_lt.2 hn
  refine ⟨n.toInt.toNat.toUInt32, by rw [level]; simp only [hlt, if_false], ?_⟩
  have hmax : n.toInt < wordCount 31 := n.toInt_lt
  have hsize : n.toInt.toNat < UInt32.size := by
    have hword : (wordCount 31 : Int) = 2147483648 := rfl
    have hsize : UInt32.size = 4294967296 := rfl
    omega
  rw [Nat.toUInt32, UInt32.toNat_ofNat_of_lt' hsize]
  omega

end Query

namespace Dataset.Represents

open Query

variable {d : Dataset} {t : Table} (h : d.Represents t) (s : Signature)

include h

theorem reportsMinimum_tightest {f : Finding} (hf : tightest d s .minApiLevel = some f) :
    t.ReportsMinimum s f := by
  obtain ⟨hreports, hk, hle⟩ := h.reports_tightest hf
  obtain ⟨m, hm⟩ := Payload.eq_minApiLevel hk
  refine ⟨m, hm, hreports, fun n hn => ?_⟩
  obtain ⟨r, scope, hr, hrn⟩ := hn
  have hle := hle r scope hr (congrArg Payload.kind hrn)
  rw [hrn, hm] at hle
  exact UInt32.le_iff_toNat_le.2 hle

theorem reportsMaximum_tightest {f : Finding} (hf : tightest d s .maxApiLevel = some f) :
    t.ReportsMaximum s f := by
  obtain ⟨hreports, hk, hle⟩ := h.reports_tightest hf
  obtain ⟨m, hm⟩ := Payload.eq_maxApiLevel hk
  refine ⟨m, hm, hreports, fun n hn => ?_⟩
  obtain ⟨r, scope, hr, hrn⟩ := hn
  have hle := hle r scope hr (congrArg Payload.kind hrn)
  rw [hrn, hm] at hle
  simp only [Payload.tightness] at hle
  have hm32 : m.toNat < wordCount 32 := m.toNat_lt
  have hn32 : n.toNat < wordCount 32 := n.toNat_lt
  exact UInt32.le_iff_toNat_le.2 (by omega)

theorem shows_minimum (strict : Bool) (target : Option UInt32) :
    Shows (findingsAt d s strict target) .minApiLevel (tightest d s .minApiLevel)
      (∃ m, t.Applies s (.minApiLevel m) ∧ violated strict target .minApiLevel m = true) := by
  rw [← Table.exists_level_iff .minApiLevel (fun _ => rfl) (fun _ => rfl) Payload.eq_minApiLevel]
  exact h.shows_tightest rfl strict target

theorem shows_maximum (strict : Bool) (target : Option UInt32) :
    Shows (findingsAt d s strict target) .maxApiLevel (tightest d s .maxApiLevel)
      (∃ m, t.Applies s (.maxApiLevel m) ∧ violated strict target .maxApiLevel m = true) := by
  rw [← Table.exists_level_iff .maxApiLevel (fun _ => rfl) (fun _ => rfl) Payload.eq_maxApiLevel]
  exact h.shows_tightest rfl strict target

theorem shows_minimum_at (strict : Bool) {n : UInt32} :
    Shows (findingsAt d s strict (some n)) .minApiLevel (tightest d s .minApiLevel)
      (∃ m, t.Applies s (.minApiLevel m) ∧ n.toNat < m.toNat) := by
  simpa [violated, UInt32.lt_iff_toNat_lt] using h.shows_minimum s strict (some n)

theorem shows_maximum_at (strict : Bool) {n : UInt32} :
    Shows (findingsAt d s strict (some n)) .maxApiLevel (tightest d s .maxApiLevel)
      (∃ m, t.Applies s (.maxApiLevel m) ∧ m.toNat < n.toNat) := by
  simpa [violated, UInt32.lt_iff_toNat_lt] using h.shows_maximum s strict (some n)

end Dataset.Represents

open Query

/-- Kinds of bounds are found if and only if one of the two is. -/
theorem exists_isApiBound_iff {fs : List Finding} : (∃ f ∈ fs, f.kind.isApiBound = true) ↔
    (∃ f ∈ fs, f.kind = .minApiLevel) ∨ ∃ f ∈ fs, f.kind = .maxApiLevel := by
  have hk : ∀ k : Kind, k.isApiBound = true ↔ k = .minApiLevel ∨ k = .maxApiLevel := by
    intro k
    cases k <;> decide
  simp only [hk, and_or_left, exists_or]

/-- What is found of the bounds. Of the minimums that cover the signature the greatest can be found, of the
maximums the least, each as the nearest record that states it. With a known level it is found if the level is
outside some bound of its kind. So no bound is found if the level is inside all of them; if a minimum exceeds a
maximum, one is always found and strictly between the two both are. With an unknown level both are found if the
context is strict. -/
theorem bounds_found_outside_intersection {t : Table} {digest : Option Digest} {d : Dataset}
    (h : Dataset.ofTable t digest = .ok d) (s : Signature) :
    ∃ minimum maximum : Option Finding,
      (∀ f, minimum = some f → t.ReportsMinimum s f) ∧ (∀ f, maximum = some f → t.ReportsMaximum s f) ∧
      (∀ (n : Int32) (strict : Bool), 1 ≤ n → ∃ fs, findings d s ⟨some n, strict⟩ = .ok fs ∧
        Shows fs .minApiLevel minimum (∃ m, t.Applies s (.minApiLevel m) ∧ n.toInt < m.toNat) ∧
        Shows fs .maxApiLevel maximum (∃ m, t.Applies s (.maxApiLevel m) ∧ m.toNat < n.toInt) ∧
        ((∀ f ∈ fs, f.kind.isApiBound = false) ↔
          (∀ m, t.Applies s (.minApiLevel m) → m.toNat ≤ n.toInt) ∧
            ∀ m, t.Applies s (.maxApiLevel m) → n.toInt ≤ m.toNat) ∧
        ∀ lo hi, t.Applies s (.minApiLevel lo) → t.Applies s (.maxApiLevel hi) → hi < lo →
          (∃ f ∈ fs, f.kind.isApiBound = true) ∧ (hi.toNat < n.toInt → n.toInt < lo.toNat →
            (∃ f ∈ fs, f.kind = .minApiLevel) ∧ ∃ f ∈ fs, f.kind = .maxApiLevel)) ∧
      ∀ strict : Bool, ∃ fs, findings d s ⟨none, strict⟩ = .ok fs ∧
        Shows fs .minApiLevel minimum (strict = true ∧ ∃ m, t.Applies s (.minApiLevel m)) ∧
        Shows fs .maxApiLevel maximum (strict = true ∧ ∃ m, t.Applies s (.maxApiLevel m)) := by
  have hd := Dataset.represents_of_ofTable h
  refine ⟨tightest d s .minApiLevel, tightest d s .maxApiLevel, fun f hf => hd.reportsMinimum_tightest s hf,
    fun f hf => hd.reportsMaximum_tightest s hf, fun n strict hn => ?_, fun strict => ?_⟩
  · obtain ⟨target, htarget, hlevel⟩ := Context.level_of_one_le hn strict
    have hmin := hd.shows_minimum_at s strict (n := target)
    have hmax := hd.shows_maximum_at s strict (n := target)
    simp only [← Int.ofNat_lt, hlevel] at hmin hmax
    refine ⟨findingsAt d s strict (some target), by rw [findings, htarget]; rfl, hmin, hmax, ?_, ?_⟩
    · have hnone : (∀ f ∈ findingsAt d s strict (some target), f.kind.isApiBound = false) ↔
          ¬∃ f ∈ findingsAt d s strict (some target), f.kind.isApiBound = true := by
        simp
      rw [hnone, exists_isApiBound_iff, hmin.1, hmax.1]
      simp
    · intro lo hi hlo hhi hlt
      rw [exists_isApiBound_iff, hmin.1, hmax.1]
      refine ⟨?_, fun habove hbelow => ⟨⟨lo, hlo, hbelow⟩, hi, hhi, habove⟩⟩
      have hlt := UInt32.lt_iff_toNat_lt.1 hlt
      by_cases hbelow : n.toInt < lo.toNat
      · exact Or.inl ⟨lo, hlo, hbelow⟩
      · exact Or.inr ⟨hi, hhi, by omega⟩
  · refine ⟨findingsAt d s strict none, rfl, ?_, ?_⟩
    · simpa [violated, and_comm] using hd.shows_minimum s strict none
    · simpa [violated, and_comm] using hd.shows_maximum s strict none

/-- Two packages around a class state the same minimum, and the outer one a maximum below it. The minimum is
found at the inner package. -/
theorem bounds_of_class_in_two_packages :
    let outer : Owner := ⟨[⟨['a'], by decide⟩], by decide⟩
    let inner : Owner := ⟨[⟨['a'], by decide⟩, ⟨['b'], by decide⟩], by decide⟩
    let s : Signature := ⟨⟨[⟨['a'], by decide⟩, ⟨['b'], by decide⟩, ⟨['C'], by decide⟩], by decide⟩, none⟩
    let rs : List Record :=
      [⟨.under outer, .minApiLevel 21, .sdkLint, none⟩, ⟨.under outer, .maxApiLevel 19, .sdkLint, none⟩,
        ⟨.under inner, .minApiLevel 21, .googleMaven, some "lib"⟩]
    let t : Table :=
      ⟨[⟨.sdkLint, [⟨"a.*", [⟨.minApiLevel 21, none⟩, ⟨.maxApiLevel 19, none⟩]⟩]⟩,
          ⟨.googleMaven, [⟨"a.b.*", [⟨.minApiLevel 21, some "lib"⟩]⟩]⟩], [], []⟩
    let f : Finding := ⟨.minApiLevel 21, .googleMaven, some "lib", .under inner⟩
    let g : Finding := ⟨.maxApiLevel 19, .sdkLint, none, .under outer⟩
    Dataset.ofTable t none = .ok (.made none rs []) ∧
      findings (.made none rs []) s ⟨some 20, false⟩ = .ok [f, g] ∧
      t.ReportsMinimum s f ∧ t.ReportsMaximum s g := by
  intro outer inner s rs t f g
  have hd : Dataset.ofTable t none = .ok (.made none rs []) := rfl
  have hfound : findings (.made none rs []) s ⟨some 20, false⟩ = .ok [f, g] :=
    congrArg Except.ok ((bySeverity_eq_flatMap _).trans (by decide +kernel))
  obtain ⟨minimum, maximum, hminimum, hmaximum, hknown, -⟩ := bounds_found_outside_intersection hd s
  obtain ⟨fs, hfs, hmin, hmax, -⟩ := hknown 20 false (by decide)
  obtain rfl := Except.ok.inj (hfs.symm.trans hfound)
  have hf := (hmin.2 f (by simp) rfl).1
  have hg := (hmax.2 g (by simp) rfl).1
  exact ⟨hd, hfound, hminimum f hf, hmaximum g hg⟩

end ApiRules
