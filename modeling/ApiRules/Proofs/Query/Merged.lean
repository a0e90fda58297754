import ApiRules.Proofs.Merge.Loading
import ApiRules.Proofs.Query.Candidates

/-!
From partial datasets to findings. What the partial datasets state about a signature itself decides what is
found for it, by precedence.
-/
namespace ApiRules

theorem Dataset.Indexed.filter_kind_lookupExact {d : Dataset} (h : d.Indexed) (s : Signature) (k : Kind) :
    ((d.lookupExact s).filter fun r => r.kind = k) = d.records.filter fun r => r.key = (.exact s, k) := by
  rw [h.lookupExact, List.filter_filter]
  apply List.filter_congr
  intro r _
  rw [Bool.and_comm]
  simp [Record.key]

namespace Record

theorem binding_of_not_isApiBound {k : Kind} (hk : k.isApiBound = false) (stated : List Record)
    (r : Record) : binding k stated r = true := by
  cases k with
  | minApiLevel | maxApiLevel => cases hk
  | _ => rfl

theorem foremost?_of_not_isApiBound {k : Kind} (hk : k.isApiBound = false) (rs : List Record)
    (p : Pattern) : foremost? rs p k = rs.find? fun r => r.key = (p, k) := by
  rw [foremost?, List.find?_filter]
  apply List.find?_congr
  intro r _
  simp [binding_of_not_isApiBound hk]

/-- The foremost minimum is the first record of the highest one. -/
theorem foremost?_minApiLevel {rs : List Record} {p : Pattern} {m : UInt32}
    (hm : ∃ r ∈ rs, r.pattern = p ∧ r.payload = .minApiLevel m)
    (hmax : ∀ r ∈ rs, ∀ n, r.pattern = p → r.payload = .minApiLevel n → n ≤ m) :
    foremost? rs p .minApiLevel = rs.find? fun r => r.pattern = p ∧ r.payload = .minApiLevel m := by
  obtain ⟨top, htop, hp, hpay⟩ := hm
  rw [foremost?, List.find?_filter]
  refine List.find?_congr fun r hr => decide_eq_decide.2 ?_
  simp only [decide_eq_true_eq, binding, List.all_eq_true, List.mem_filter]
  constructor
  · rintro ⟨hk, hall⟩
    obtain ⟨rfl, hkind⟩ := Prod.mk.inj hk
    obtain ⟨n, hn⟩ := Payload.eq_minApiLevel hkind
    have hle := hall top ⟨htop, Prod.ext hp (congrArg Payload.kind hpay)⟩
    rw [level_eq_of_min hpay, level_eq_of_min hn] at hle
    rw [hn, UInt32.le_antisymm (hmax r hr n rfl hn) hle]
    exact ⟨rfl, rfl⟩
  · rintro ⟨rfl, hn⟩
    refine ⟨Prod.ext rfl (congrArg Payload.kind hn), fun q hq => ?_⟩
    obtain ⟨hq, hk⟩ := hq
    obtain ⟨n, hqn⟩ := Payload.eq_minApiLevel (Prod.mk.inj hk).2
    rw [level_eq_of_min hqn, level_eq_of_min hn]
    exact hmax q hq n (Prod.mk.inj hk).1 hqn

end Record

namespace Query

theorem violated_minApiLevel (strict : Bool) (target : Option UInt32) (m : UInt32) :
    violated strict target .minApiLevel m = target.elim strict fun t => t < m := by
  cases target with
  | none => rfl
  | some t => rfl

variable {d : Dataset} {rs : List Record} {s : Signature}
  (h : ∀ k, ((d.lookupExact s).filter fun r => r.kind = k) = (Record.foremost? rs (.exact s) k).toList)
  (strict : Bool) (target : Option UInt32)

include h

/-- Of a kind without levels the first record about the signature is found. -/
theorem find_first_record {k : Kind} (hk : k.isApiBound = false) (hs : ∃ r ∈ rs, r.key = (.exact s, k)) :
    ∃ r, rs.find? (fun r => r.key = (.exact s, k)) = some r ∧
      ((findingsAt d s strict target).filter fun f => f.kind = k) = [.ofRecord r .exact] := by
  obtain ⟨q, hq, hkey⟩ := hs
  have hsome : (rs.find? fun r => r.key = (.exact s, k)).isSome :=
    List.find?_isSome.2 ⟨q, hq, decide_eq_true hkey⟩
  obtain ⟨r, hr⟩ := Option.isSome_iff_exists.1 hsome
  have hone := h k
  rw [Record.foremost?_of_not_isApiBound hk, hr] at hone
  refine ⟨r, hr, ?_⟩
  rw [filter_kind_findingsAt_of_exact hone, hk]
  simp

/-- Of the minimums the first record of the highest one is found if the target is below it. -/
theorem find_highest_minimum {m : UInt32} (hm : ∃ r ∈ rs, r.pattern = .exact s ∧ r.payload = .minApiLevel m)
    (hmax : ∀ r ∈ rs, ∀ n, r.pattern = .exact s → r.payload = .minApiLevel n → n ≤ m) :
    ∃ r, rs.find? (fun r => r.pattern = .exact s ∧ r.payload = .minApiLevel m) = some r ∧
      ((findingsAt d s strict target).filter fun f => f.kind = .minApiLevel) =
        if target.elim strict (fun t => t < m) then [.ofRecord r .exact] else [] := by
  obtain ⟨q, hq, hqm⟩ := hm
  have hsome : (rs.find? fun r => r.pattern = .exact s ∧ r.payload = .minApiLevel m).isSome :=
    List.find?_isSome.2 ⟨q, hq, decide_eq_true hqm⟩
  obtain ⟨r, hr⟩ := Option.isSome_iff_exists.1 hsome
  have hfound : r.pattern = .exact s ∧ r.payload = .minApiLevel m := by simpa using List.find?_some hr
  have hone := h .minApiLevel
  rw [Record.foremost?_minApiLevel ⟨q, hq, hqm⟩ hmax, hr] at hone
  refine ⟨r, hr, ?_⟩
  rw [filter_kind_findingsAt_of_exact hone, Record.level_eq_of_min hfound.2, violated_minApiLevel]
  cases target.elim strict fun t => decide (t < m) <;> simp [Kind.isApiBound]

end Query

/-- The records that a merged table has for a signature: of each kind the foremost statement. -/
theorem filter_kind_lookupExact_merged (ps : List Partial) (digest : Option Digest)
    (declared : List (Signature × Typedef)) (s : Signature) (k : Kind) :
    (((Dataset.made digest (Table.order (mergeState ps).records) declared).lookupExact s).filter fun r =>
      r.kind = k) = (Record.foremost? (Partial.statements ps) (.exact s) k).toList := by
  rw [(Dataset.indexed_made _ _ _).filter_kind_lookupExact, Dataset.records_made]
  exact filter_key_order_mergeState ps (.exact s) k

/-- What is found for a signature in a merged dataset. Of each kind of rules other than bounds that is stated
about the signature itself, the first statement by precedence is found and nothing else. Of minimum levels
that are stated about it, the first statement of the highest one is found if the target is below it. -/
theorem findings_from_first_statements (ps : List Partial) (digest : Option Digest) (s : Signature)
    (context : Query.Context) {target : Option UInt32} (h : context.level = .ok target) :
    ∃ d fs, Dataset.ofTable (merge ps).table digest = .ok d ∧ Query.findings d s context = .ok fs ∧
      (∀ k : Kind, k.isApiBound = false →
        (∃ q ∈ ps, ∃ raw ∈ q.records,
          Pattern.parse raw.pattern = .ok (.exact s) ∧ raw.payload.kind = k) →
        ∃ r, (Partial.statements ps).find? (fun r => r.key = (.exact s, k)) = some r ∧
          (fs.filter fun f => f.kind = k) = [.ofRecord r .exact]) ∧
      ∀ m, (∃ q ∈ ps, ∃ raw ∈ q.records,
          Pattern.parse raw.pattern = .ok (.exact s) ∧ raw.payload = .minApiLevel m) →
        (∀ q ∈ ps, ∀ raw ∈ q.records, ∀ n,
          Pattern.parse raw.pattern = .ok (.exact s) → raw.payload = .minApiLevel n → n ≤ m) →
        ∃ r, (Partial.statements ps).find?
            (fun r => r.pattern = .exact s ∧ r.payload = .minApiLevel m) = some r ∧
          (fs.filter fun f => f.kind = .minApiLevel) =
            if target.elim context.strict (fun t => t < m) then [.ofRecord r .exact] else [] := by
  obtain ⟨declared, hd, -, -⟩ := ofTable_merge ps digest
  have hexact := filter_kind_lookupExact_merged ps digest declared s
  refine ⟨_, _, hd, by rw [Query.findings, h]; rfl, ?_, ?_⟩
  · intro k hk hraw
    exact Query.find_first_record hexact context.strict target hk (Partial.exists_key_statement_iff.2 hraw)
  · intro m hraw hmax
    refine Query.find_highest_minimum hexact context.strict target (Partial.exists_statement_iff.2 hraw) ?_
    intro r hr n hp hn
    obtain ⟨q, hq, raw, hraw, hparse, hpay⟩ := Partial.exists_statement_iff.1 ⟨r, hr, hp, hn⟩
    exact hmax q hq raw hraw n hparse hpay

/-- Two sources state a minimum for a class. The higher one is found, although it is from the source of lower
priority, with the default artifact of its partial dataset. -/
theorem findings_of_class_from_two_sources :
    let s : Signature := ⟨.ofName "C", none⟩
    let ps : List Partial :=
      [⟨.mavenCentral, some "lib",
          [⟨"C", .minApiLevel 24, none⟩, ⟨"C", .deprecated none, none⟩], [], .empty⟩,
        ⟨.sdkLint, none,
          [⟨"C", .minApiLevel 21, none⟩, ⟨"C", .deprecated (some "D"), none⟩], [], .empty⟩]
    ∃ d fs, Dataset.ofTable (merge ps).table none = .ok d ∧
      Query.findings d s ⟨some 23, false⟩ = .ok fs ∧
      (fs.filter fun f => f.kind = .deprecated) = [⟨.deprecated (some "D"), .sdkLint, none, .exact⟩] ∧
      (fs.filter fun f => f.kind = .minApiLevel) =
        [⟨.minApiLevel 24, .mavenCentral, some "lib", .exact⟩] := by
  intro s ps
  have hp : Pattern.parse "C" = .ok (.exact s) := Pattern.parse_text (.exact s)
  have hl : (⟨some 23, false⟩ : Query.Context).level = .ok (some 23) := rfl
  obtain ⟨d, fs, hd, hfs, hfirst, hmin⟩ := findings_from_first_statements ps none s ⟨some 23, false⟩ hl
  have hle : ∀ q ∈ ps, ∀ raw ∈ q.records, ∀ n,
      Pattern.parse raw.pattern = .ok (.exact s) → raw.payload = .minApiLevel n → n ≤ 24 := by
    intro q hq raw hraw n _ hn
    simp only [ps, List.mem_cons, List.not_mem_nil, or_false] at hq
    obtain rfl | rfl := hq
    · simp only [List.mem_cons, List.not_mem_nil, or_false] at hraw
      obtain rfl | rfl := hraw
      · exact (Payload.minApiLevel.inj hn) ▸ by decide
      · cases hn
    · simp only [List.mem_cons, List.not_mem_nil, or_false] at hraw
      obtain rfl | rfl := hraw
      · exact (Payload.minApiLevel.inj hn) ▸ by decide
      · cases hn
  obtain ⟨r, hr, hdep⟩ := hfirst .deprecated rfl
    ⟨_, List.mem_cons_self, _, List.mem_cons_of_mem _ List.mem_cons_self, hp, rfl⟩
  obtain ⟨q, hq, hlev⟩ := hmin 24 ⟨_, List.mem_cons_self, _, List.mem_cons_self, hp, rfl⟩ hle
  have hr' : r = ⟨.exact s, .deprecated (some "D"), .sdkLint, none⟩ :=
    Option.some.inj (hr.symm.trans (by decide))
  have hq' : q = ⟨.exact s, .minApiLevel 24, .mavenCentral, some "lib"⟩ :=
    Option.some.inj (hq.symm.trans (by decide))
  rw [hr'] at hdep
  rw [hq'] at hlev
  exact ⟨d, fs, hd, hfs, hdep, hlev⟩

end ApiRules
