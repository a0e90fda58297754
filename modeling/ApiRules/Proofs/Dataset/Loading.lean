import ApiRules.Dataset.Load
import ApiRules.Proofs.Dataset.Index
import ApiRules.Proofs.Results
import ApiRules.Proofs.Rule.Comparison
import ApiRules.Proofs.Sequences

/-!
What a table loads as. It loads if all its patterns and methods can be read, no two of its records have one
key and no two of its declarations have one. The dataset has then these records and declarations in the
order of the table.
-/
namespace ApiRules

namespace Table

/-- The records of the group, if all its patterns can be read. -/
def Group.records? (g : Group) : Option (List Record) :=
  (g.entries.mapM fun e : Entry => (e.records g.source).toOption).map List.flatten

/-- The records of the table, if all its patterns can be read. -/
def records? (t : Table) : Option (List Record) := (t.groups.mapM Group.records?).map List.flatten

/-- A declaration with its method and its values, if the method can be read. -/
def Typedef.declared? (constants : List Constant) (t : Typedef) : Option (Signature × ApiRules.Typedef) :=
  t.target.toOption.map fun method => (method, t.resolve constants)

end Table

namespace Dataset

/-- What no two declarations of a dataset share. -/
def slot (declared : Signature × Typedef) : Signature × UInt32 := (declared.1, declared.2.argument)

theorem accept_eq_ok {d d' : Dataset} {r : Record} :
    d.accept r = .ok d' ↔ r.key ∉ d.records.map Record.key ∧ d' = d.push r := by
  have hany : (d.records.any fun q => q.pattern = r.pattern ∧ q.kind = r.kind) = true ↔
      r.key ∈ d.records.map Record.key := by
    simp only [List.any_eq_true, decide_eq_true_eq, List.mem_map, Record.key, Prod.mk.injEq]
  rw [accept]
  by_cases hk : r.key ∈ d.records.map Record.key
  · rw [if_pos (hany.2 hk)]
    simp [hk]
  · rw [if_neg (mt hany.1 hk)]
    simp [hk, eq_comm]

/-- The step adds these records, and is refused if they cannot be read or if two records would have one key
then. -/
def Adds (step : Dataset → Except LoadError Dataset) (records : Option (List Record)) : Prop :=
  ∀ d d', (d.records.map Record.key).Nodup → (step d = .ok d' ↔
    ∃ rs, records = some rs ∧ ((d.records ++ rs).map Record.key).Nodup ∧ d' = rs.foldl push d)

theorem adds_accept (rs : List Record) : Adds (fun d => rs.foldlM accept d) (some rs) := by
  induction rs with
  | nil =>
    intro d d' hd
    simp [hd, eq_comm, pure, Except.pure]
  | cons r rs ih =>
    intro d d' hd
    have hstep : (d.push r).records ++ rs = d.records ++ r :: rs := by simp [records_push]
    change (r :: rs).foldlM accept d = .ok d' ↔ _
    rw [List.foldlM_cons, bind_eq_ok_iff]
    constructor
    · rintro ⟨e, he, hr⟩
      obtain ⟨hk, rfl⟩ := accept_eq_ok.1 he
      have hn : ((d.push r).records.map Record.key).Nodup := by
        rw [records_push]
        exact Sequences.nodup_map_concat.2 ⟨hd, hk⟩
      obtain ⟨rs', hrs, hkeys, rfl⟩ := (ih _ _ hn).1 hr
      obtain rfl := Option.some.inj hrs
      exact ⟨r :: rs, rfl, hstep ▸ hkeys, rfl⟩
    · rintro ⟨rs', hrs, hkeys, rfl⟩
      obtain rfl := Option.some.inj hrs
      rw [← hstep] at hkeys
      have hn : ((d.push r).records.map Record.key).Nodup := by
        rw [List.map_append] at hkeys
        exact (List.nodup_append.1 hkeys).1
      have hk : r.key ∉ d.records.map Record.key := by
        rw [records_push] at hn
        exact (Sequences.nodup_map_concat.1 hn).2
      exact ⟨d.push r, accept_eq_ok.2 ⟨hk, rfl⟩, (ih _ _ hn).2 ⟨rs, rfl, hkeys, rfl⟩⟩

/-- Steps that add records one after another add all of them. -/
theorem Adds.foldlM {β : Type} {step : Dataset → β → Except LoadError Dataset}
    {read : β → Option (List Record)} (h : ∀ b, Adds (fun d => step d b) (read b)) (bs : List β) :
    Adds (fun d => bs.foldlM step d) ((bs.mapM read).map List.flatten) := by
  induction bs with
  | nil =>
    intro d d' hd
    simp [hd, eq_comm, pure, Except.pure]
  | cons b bs ih =>
    intro d d' hd
    change (b :: bs).foldlM step d = .ok d' ↔ _
    rw [List.foldlM_cons, bind_eq_ok_iff]
    constructor
    · rintro ⟨e, he, hr⟩
      obtain ⟨rs, hrs, hkeys, rfl⟩ := (h b d e hd).1 he
      rw [← records_foldl_push] at hkeys
      obtain ⟨rest, hrest, hall, rfl⟩ := (ih _ _ hkeys).1 hr
      obtain ⟨rss, hrss, rfl⟩ := Option.map_eq_some_iff.1 hrest
      refine ⟨rs ++ rss.flatten, by simp [hrs, hrss], ?_, by simp⟩
      rwa [records_foldl_push, List.append_assoc] at hall
    · rintro ⟨all, hall, hkeys, rfl⟩
      obtain ⟨rss, hrss, rfl⟩ := Option.map_eq_some_iff.1 hall
      simp only [List.mapM_cons, Option.bind_eq_bind, Option.bind_eq_some_iff, Option.pure_def,
        Option.some.injEq] at hrss
      obtain ⟨rs, hrs, rss, hrest, rfl⟩ := hrss
      rw [List.flatten_cons, ← List.append_assoc, ← records_foldl_push] at hkeys
      have hn : (((d.records ++ rs)).map Record.key).Nodup := by
        rw [records_foldl_push, List.map_append] at hkeys
        exact (List.nodup_append.1 hkeys).1
      refine ⟨rs.foldl push d, (h b d _ hd).2 ⟨rs, hrs, hn, rfl⟩, ?_⟩
      rw [← records_foldl_push] at hn
      exact (ih _ _ hn).2 ⟨rss.flatten, by simp [hrest], hkeys, by simp⟩

theorem adds_addEntry (source : Source) (e : Table.Entry) :
    Adds (fun d => addEntry source d e) (e.records source).toOption := by
  intro d d' hd
  unfold addEntry
  cases he : e.records source with
  | error err =>
    constructor
    · intro h
      cases h
    · rintro ⟨rs, h, -⟩
      cases h
  | ok rs => exact adds_accept rs d d' hd

theorem adds_addGroup (g : Table.Group) : Adds (fun d => addGroup d g) g.records? :=
  Adds.foldlM (adds_addEntry g.source) g.entries

theorem adds_addGroups (t : Table) : Adds (fun d => t.groups.foldlM addGroup d) t.records? :=
  Adds.foldlM adds_addGroup t.groups

theorem declare_eq_ok {constants : List Table.Constant} {d d' : Dataset} {t : Table.Typedef} :
    d.declare constants t = .ok d' ↔ ∃ declared, t.declared? constants = some declared ∧
      slot declared ∉ d.typedefs.map slot ∧ d' = { d with typedefs := d.typedefs ++ [declared] } := by
  unfold declare Table.Typedef.declared?
  cases ht : t.target with
  | error err =>
    constructor
    · intro h
      cases h
    · rintro ⟨declared, h, -⟩
      cases h
  | ok method =>
    have hany : (d.typedefs.any fun x => x.1 = method ∧ x.2.argument = t.argument) = true ↔
        slot (method, t.resolve constants) ∈ d.typedefs.map slot := by
      simp only [List.any_eq_true, decide_eq_true_eq, List.mem_map, slot, Prod.mk.injEq]
      rfl
    have hsome : ((Except.ok method : Except LoadError Signature).toOption.map fun m =>
        (m, t.resolve constants)) = some (method, t.resolve constants) := rfl
    rw [hsome]
    change (if _ then _ else _) = _ ↔ _
    by_cases hs : slot (method, t.resolve constants) ∈ d.typedefs.map slot
    · rw [if_pos (hany.2 hs)]
      constructor
      · intro h
        cases h
      · rintro ⟨declared, h, hn, -⟩
        exact absurd (Option.some.inj h ▸ hs) hn
    · rw [if_neg (mt hany.1 hs)]
      constructor
      · exact fun h => ⟨_, rfl, hs, (Except.ok.inj h).symm⟩
      · rintro ⟨declared, h, -, rfl⟩
        obtain rfl := Option.some.inj h
        rfl

theorem foldlM_declare_eq_ok {constants : List Table.Constant} {ts : List Table.Typedef} {d d' : Dataset}
    (hd : (d.typedefs.map slot).Nodup) :
    ts.foldlM (declare constants) d = .ok d' ↔
      ∃ declared, ts.mapM (Table.Typedef.declared? constants) = some declared ∧
        ((d.typedefs ++ declared).map slot).Nodup ∧
        d' = { d with typedefs := d.typedefs ++ declared } := by
  induction ts generalizing d with
  | nil => simp [hd, eq_comm, pure, Except.pure]
  | cons t ts ih =>
    rw [List.foldlM_cons, bind_eq_ok_iff]
    constructor
    · rintro ⟨e, he, hr⟩
      obtain ⟨declared, hdec, hs, rfl⟩ := declare_eq_ok.1 he
      have hn := Sequences.nodup_map_concat.2 ⟨hd, hs⟩
      obtain ⟨rest, hrest, hall, rfl⟩ := (ih hn).1 hr
      exact ⟨declared :: rest, by simp [hdec, hrest], by simpa using hall, by simp⟩
    · rintro ⟨all, hall, hslots, rfl⟩
      simp only [List.mapM_cons, Option.bind_eq_bind, Option.bind_eq_some_iff, Option.pure_def,
        Option.some.injEq] at hall
      obtain ⟨declared, hdec, rest, hrest, rfl⟩ := hall
      have hn : ((d.typedefs ++ [declared]).map slot).Nodup := by
        rw [← List.singleton_append, ← List.append_assoc, List.map_append] at hslots
        exact (List.nodup_append.1 hslots).1
      have hs := (Sequences.nodup_map_concat.1 hn).2
      refine ⟨_, declare_eq_ok.2 ⟨declared, hdec, hs, rfl⟩, (ih hn).2 ⟨rest, hrest, ?_, ?_⟩⟩
      · simpa using hslots
      · simp

/-- The dataset of these records and declarations. -/
def made (digest : Option Digest) (rs : List Record) (declared : List (Signature × Typedef)) : Dataset :=
  { rs.foldl push { empty with digest } with typedefs := declared }

theorem records_made (digest : Option Digest) (rs : List Record) (declared : List (Signature × Typedef)) :
    (made digest rs declared).records = rs := by
  simp [made, records_foldl_push, empty]

theorem indexed_made (digest : Option Digest) (rs : List Record) (declared : List (Signature × Typedef)) :
    (made digest rs declared).Indexed := by
  have he : Indexed { empty with digest } := ⟨fun s => rfl, fun o => rfl⟩
  have hi := he.foldl_push rs
  exact ⟨hi.exact, hi.under⟩

/-- A table loads if its texts can be read and its keys are different. -/
theorem ofTable_eq_ok {t : Table} {digest : Option Digest} {d : Dataset} :
    ofTable t digest = .ok d ↔ ∃ rs declared, t.records? = some rs ∧ (rs.map Record.key).Nodup ∧
      t.typedefs.mapM (Table.Typedef.declared? t.constants) = some declared ∧
      (declared.map slot).Nodup ∧ d = made digest rs declared := by
  have hrec : (({ empty with digest } : Dataset).records.map Record.key).Nodup := List.nodup_nil
  have htyp : ∀ rs : List Record, ((rs.foldl push { empty with digest }).typedefs.map slot).Nodup := by
    intro rs
    rw [typedefs_foldl_push]
    exact List.nodup_nil
  rw [ofTable]
  rw [bind_eq_ok_iff]
  constructor
  · rintro ⟨e, he, hd⟩
    obtain ⟨rs, hrs, hkeys, rfl⟩ := (adds_addGroups t _ _ hrec).1 he
    obtain ⟨declared, hdec, hslots, rfl⟩ := (foldlM_declare_eq_ok (htyp rs)).1 hd
    rw [typedefs_foldl_push] at hslots ⊢
    exact ⟨rs, declared, hrs, hkeys, hdec, hslots, rfl⟩
  · rintro ⟨rs, declared, hrs, hkeys, hdec, hslots, rfl⟩
    refine ⟨_, (adds_addGroups t _ _ hrec).2 ⟨rs, hrs, hkeys, rfl⟩, ?_⟩
    refine (foldlM_declare_eq_ok (htyp rs)).2 ⟨declared, hdec, ?_, ?_⟩
    · rw [typedefs_foldl_push]
      exact hslots
    · rw [typedefs_foldl_push]
      rfl

end Dataset

end ApiRules
