import ApiRules.Proofs.Dataset.Declared
import ApiRules.Proofs.Dataset.Rows
import Mathlib.Data.List.Perm.Basic

/-!
Which tables load. A table is refused if a pattern or a method cannot be read or if a key is used twice, and for
nothing else, so that only the spellings of patterns, the kinds of rules and the arguments of methods count.
-/
namespace ApiRules

namespace Table

/-- The spellings of the patterns of all entries. -/
def patterns (t : Table) : List String := t.groups.flatMap fun g => g.entries.map Entry.pattern

/-- The rows have one pattern, in any spellings, and one kind. -/
def Row.Rivals (x y : Row) : Prop :=
  x.payload.kind = y.payload.kind ∧ ∃ p, Pattern.parse x.pattern = .ok p ∧ Pattern.parse y.pattern = .ok p

/-- The declarations are about one argument of one method, in any spellings. -/
def Typedef.Rivals (x y : Typedef) : Prop :=
  x.argument = y.argument ∧ ∃ m, Signature.parse x.method = .ok m ∧ Signature.parse y.method = .ok m

def HasBadPattern (t : Table) : Prop := ∃ raw ∈ t.patterns, ∃ e, Pattern.parse raw = .error e

def HasRivalRows (t : Table) : Prop := ∃ x y, [x, y].Sublist t.rows ∧ x.Rivals y

def HasBadMethod (t : Table) : Prop :=
  ∃ e ∈ t.typedefs, ∀ m, Signature.parse e.method = .ok m → m.isMethod = false

def HasRivalTypedefs (t : Table) : Prop := ∃ x y, [x, y].Sublist t.typedefs ∧ x.Rivals y

theorem exists_records_entry_iff {e : Entry} {source : Source} :
    (∃ rs, (e.records source).toOption = some rs) ↔ ∃ p, Pattern.parse e.pattern = .ok p := by
  rw [Entry.records]
  cases Pattern.parse e.pattern with
  | error error => simp [Except.toOption]
  | ok p => simp [Except.toOption]

theorem exists_records?_iff (t : Table) : (∃ rs, t.records? = some rs) ↔ ¬t.HasBadPattern := by
  have hflat : ∀ o : Option (List (List Record)), (∃ rs, o.map List.flatten = some rs) ↔ ∃ rss, o = some rss := by
    intro o
    cases o <;> simp
  have hread : ∀ raw, (∃ p, Pattern.parse raw = .ok p) ↔ ¬∃ e, Pattern.parse raw = .error e := by
    intro raw
    cases Pattern.parse raw <;> simp
  simp only [records?, Group.records?, hflat, Sequences.exists_mapM_iff, exists_records_entry_iff, hread,
    HasBadPattern, patterns, List.mem_flatMap, List.mem_map]
  constructor
  · rintro h ⟨raw, ⟨g, hg, e, he, rfl⟩, hbad⟩
    exact h g hg e he hbad
  · intro h g hg e he hbad
    exact h ⟨_, ⟨g, hg, e, he, rfl⟩, hbad⟩

theorem exists_declared_iff (t : Table) :
    (∃ declared, t.typedefs.mapM (Typedef.declared? t.constants) = some declared) ↔ ¬t.HasBadMethod := by
  simp only [Sequences.exists_mapM_iff, Typedef.declared?_eq_some, HasBadMethod, not_exists, not_and]
  apply forall₂_congr
  intro e _
  constructor
  · rintro ⟨x, ⟨hp, hm⟩, -⟩ hall
    rw [hall x.1 hp] at hm
    cases hm
  · intro h
    obtain ⟨m, hm⟩ := not_forall.1 h
    obtain ⟨hp, hm⟩ := Classical.not_imp.1 hm
    exact ⟨(m, e.resolve t.constants), ⟨hp, by simpa using hm⟩, rfl⟩

theorem Row.Reads.rivals_iff {x y : Row} {r q : Record} (hx : x.Reads r) (hy : y.Reads q) :
    x.Rivals y ↔ r.key = q.key := by
  simp only [Row.Rivals, hx.pattern, hy.pattern, ← hx.payload, ← hy.payload, Record.key, Prod.mk.injEq,
    Except.ok.injEq, exists_eq_left']
  exact ⟨fun h => ⟨h.2.symm, h.1⟩, fun h => ⟨h.2, h.1.symm⟩⟩

theorem Typedef.rivals_iff {constants : List Constant} {e f : Typedef} {x y : Signature × ApiRules.Typedef}
    (he : e.declared? constants = some x) (hf : f.declared? constants = some y) :
    e.Rivals f ↔ Dataset.slot x = Dataset.slot y := by
  obtain ⟨⟨hx, -⟩, hu⟩ := declared?_eq_some.1 he
  obtain ⟨⟨hy, -⟩, hv⟩ := declared?_eq_some.1 hf
  simp only [Typedef.Rivals, hx, hy, Dataset.slot, hu, hv, Prod.mk.injEq, Except.ok.injEq, exists_eq_left']
  exact ⟨fun h => ⟨h.2.symm, h.1⟩, fun h => ⟨h.2, h.1.symm⟩⟩

theorem hasRivalRows_iff (t : Table) : t.HasRivalRows ↔ ¬t.rows.Pairwise fun x y => ¬x.Rivals y := by
  simp [HasRivalRows, List.pairwise_iff_forall_sublist]

theorem hasRivalTypedefs_iff (t : Table) :
    t.HasRivalTypedefs ↔ ¬t.typedefs.Pairwise fun x y => ¬x.Rivals y := by
  simp [HasRivalTypedefs, List.pairwise_iff_forall_sublist]

theorem nodup_keys_iff {t : Table} {rs : List Record} (h : t.records? = some rs) :
    (rs.map Record.key).Nodup ↔ ¬t.HasRivalRows := by
  rw [hasRivalRows_iff, not_not]
  refine Sequences.nodup_map_iff_of_forall₂ ?_ (reads_rows h)
  exact fun x y r q hx hy => hx.rivals_iff hy

theorem nodup_slots_iff {t : Table} {declared : List (Signature × ApiRules.Typedef)}
    (h : t.typedefs.mapM (Typedef.declared? t.constants) = some declared) :
    (declared.map Dataset.slot).Nodup ↔ ¬t.HasRivalTypedefs := by
  rw [hasRivalTypedefs_iff, not_not]
  refine Sequences.nodup_map_iff_of_forall₂ ?_ (Sequences.forall₂_of_mapM h)
  exact fun e f x y he hf => Typedef.rivals_iff he hf

/-- What loading looks at in a row. -/
def Row.outline (x : Row) : String × Kind := (x.pattern, x.payload.kind)

/-- What loading looks at in a declaration. -/
def Typedef.outline (e : Typedef) : String × UInt32 := (e.method, e.argument)

/-- The entries of the tables have the same patterns, and the rows and the declarations look the same when they
are loaded, in any order. -/
structure SameOutline (t t' : Table) : Prop where
  patterns : ∀ raw, raw ∈ t.patterns ↔ raw ∈ t'.patterns
  rows : (t.rows.map Row.outline).Perm (t'.rows.map Row.outline)
  typedefs : (t.typedefs.map Typedef.outline).Perm (t'.typedefs.map Typedef.outline)

namespace SameOutline

variable {t t' : Table}

/-- A relation of outlines that is symmetric holds in both tables or in neither. -/
theorem pairwise_iff {α β : Type} {outline : α → β} {r : β → β → Prop} (hr : ∀ {u v}, r u v → r v u)
    {l l' : List α} (h : (l.map outline).Perm (l'.map outline)) :
    (l.Pairwise fun x y => r (outline x) (outline y)) ↔ l'.Pairwise fun x y => r (outline x) (outline y) :=
  List.pairwise_map.symm.trans ((h.pairwise_iff hr).trans List.pairwise_map)

theorem hasBadPattern_iff (h : t.SameOutline t') : t.HasBadPattern ↔ t'.HasBadPattern := by
  simp only [HasBadPattern, h.patterns]

theorem hasRivalRows_iff (h : t.SameOutline t') : t.HasRivalRows ↔ t'.HasRivalRows := by
  rw [Table.hasRivalRows_iff, Table.hasRivalRows_iff, not_iff_not]
  refine pairwise_iff (r := fun u v =>
    ¬(u.2 = v.2 ∧ ∃ p, Pattern.parse u.1 = .ok p ∧ Pattern.parse v.1 = .ok p)) ?_ h.rows
  rintro u v hn ⟨hk, p, hv, hu⟩
  exact hn ⟨hk.symm, p, hu, hv⟩

theorem hasRivalTypedefs_iff (h : t.SameOutline t') : t.HasRivalTypedefs ↔ t'.HasRivalTypedefs := by
  rw [Table.hasRivalTypedefs_iff, Table.hasRivalTypedefs_iff, not_iff_not]
  refine pairwise_iff (r := fun u v =>
    ¬(u.2 = v.2 ∧ ∃ m, Signature.parse u.1 = .ok m ∧ Signature.parse v.1 = .ok m)) ?_ h.typedefs
  rintro u v hn ⟨ha, m, hv, hu⟩
  exact hn ⟨ha.symm, m, hu, hv⟩

theorem hasBadMethod_iff (h : t.SameOutline t') : t.HasBadMethod ↔ t'.HasBadMethod := by
  have hm : ∀ t : Table, t.HasBadMethod ↔
      ∃ u ∈ t.typedefs.map Typedef.outline, ∀ m, Signature.parse u.1 = .ok m → m.isMethod = false := by
    intro t
    simp only [HasBadMethod, List.mem_map, exists_exists_and_eq_and, Typedef.outline]
  rw [hm, hm]
  simp only [h.typedefs.mem_iff]

end SameOutline

end Table

namespace Dataset

/-- What is wrong is wrong with the table. -/
def IsCorrupt (e : LoadError) : Prop := ∃ why, e = .corrupt why

theorem isCorrupt_of_accept {d : Dataset} {r : Record} {e : LoadError} (h : d.accept r = .error e) :
    IsCorrupt e := by
  rw [accept] at h
  split at h
  · exact ⟨_, (Except.error.inj h).symm⟩
  · cases h

theorem isCorrupt_of_addEntry {source : Source} {d : Dataset} {entry : Table.Entry} {e : LoadError}
    (h : d.addEntry source entry = .error e) : IsCorrupt e := by
  obtain h | ⟨rs, -, h⟩ := bind_eq_error_iff.1 h
  · rw [Table.Entry.records] at h
    split at h
    · exact ⟨_, (Except.error.inj h).symm⟩
    · cases h
  · exact foldlM_error (fun _ _ _ => isCorrupt_of_accept) h

theorem isCorrupt_of_addGroup {d : Dataset} {g : Table.Group} {e : LoadError}
    (h : d.addGroup g = .error e) : IsCorrupt e :=
  foldlM_error (fun _ _ _ => isCorrupt_of_addEntry) h

theorem isCorrupt_of_declare {constants : List Table.Constant} {d : Dataset} {t : Table.Typedef}
    {e : LoadError} (h : d.declare constants t = .error e) : IsCorrupt e := by
  obtain h | ⟨m, -, h⟩ := bind_eq_error_iff.1 h
  · rw [Table.Typedef.target] at h
    split at h
    · exact ⟨_, (Except.error.inj h).symm⟩
    · split at h
      · cases h
      · exact ⟨_, (Except.error.inj h).symm⟩
  · split at h
    · exact ⟨_, (Except.error.inj h).symm⟩
    · cases h

theorem isCorrupt_of_ofTable {t : Table} {digest : Option Digest} {e : LoadError}
    (h : ofTable t digest = .error e) : IsCorrupt e := by
  obtain h | ⟨d, -, h⟩ := bind_eq_error_iff.1 h
  · exact foldlM_error (fun _ _ _ => isCorrupt_of_addGroup) h
  · exact foldlM_error (fun _ _ _ => isCorrupt_of_declare) h

theorem exists_ofTable_eq_ok_iff (t : Table) (digest : Option Digest) :
    (∃ d, ofTable t digest = .ok d) ↔
      ¬(t.HasBadPattern ∨ t.HasRivalRows ∨ t.HasBadMethod ∨ t.HasRivalTypedefs) := by
  simp only [not_or, ← t.exists_records?_iff, ← t.exists_declared_iff, ofTable_eq_ok]
  constructor
  · rintro ⟨d, rs, declared, hrs, hkeys, hdec, hslots, -⟩
    exact ⟨⟨rs, hrs⟩, (Table.nodup_keys_iff hrs).1 hkeys, ⟨declared, hdec⟩,
      (Table.nodup_slots_iff hdec).1 hslots⟩
  · rintro ⟨⟨rs, hrs⟩, hrows, ⟨declared, hdec⟩, htypedefs⟩
    exact ⟨_, rs, declared, hrs, (Table.nodup_keys_iff hrs).2 hrows, hdec,
      (Table.nodup_slots_iff hdec).2 htypedefs, rfl⟩

/-- A table is refused if and only if a pattern cannot be read, two rules have one pattern and one kind, a
declaration is about no method, or two declarations are about one argument of one method. Then the table is
corrupt. Constants, artifacts, sources, what payloads say beside their kinds, and every order are left out of
account. -/
theorem tables_refused (t : Table) (digest : Option Digest) :
    ((∃ e, ofTable t digest = .error e) ↔
      t.HasBadPattern ∨ t.HasRivalRows ∨ t.HasBadMethod ∨ t.HasRivalTypedefs) ∧
    (∀ e, ofTable t digest = .error e → IsCorrupt e) ∧
    ∀ t' digest', t.SameOutline t' →
      ((∃ e, ofTable t' digest' = .error e) ↔ ∃ e, ofTable t digest = .error e) := by
  have hrefused : ∀ t digest, (∃ e, ofTable t digest = .error e) ↔
      t.HasBadPattern ∨ t.HasRivalRows ∨ t.HasBadMethod ∨ t.HasRivalTypedefs := by
    intro t digest
    rw [← not_iff_not, ← exists_ofTable_eq_ok_iff t digest]
    cases ofTable t digest <;> simp
  refine ⟨hrefused t digest, fun e => isCorrupt_of_ofTable, fun t' digest' h => ?_⟩
  rw [hrefused, hrefused, h.hasBadPattern_iff, h.hasRivalRows_iff, h.hasBadMethod_iff, h.hasRivalTypedefs_iff]

/-- Two sources state a deprecation of one class in two spellings. The table is refused, and so it is in another
order, from one source, with other replacements and artifacts, and with a constant. -/
theorem tables_refused_for_two_spellings :
    let t : Table :=
      ⟨[⟨.sdkLint, [⟨"a.B", [⟨.deprecated none, none⟩]⟩]⟩,
          ⟨.mavenCentral, [⟨"La/B;", [⟨.deprecated (some "C"), none⟩, ⟨.removed none, none⟩]⟩, ⟨"a.*", []⟩]⟩], [], []⟩
    let t' : Table :=
      ⟨[⟨.googleMaven, [⟨"a.*", []⟩, ⟨"La/B;", [⟨.removed (some 30), some "lib"⟩, ⟨.deprecated none, none⟩]⟩,
          ⟨"a.B", [⟨.deprecated (some "D"), some "lib"⟩]⟩]⟩], [], [⟨"a.B.X", "no number"⟩]⟩
    t.HasRivalRows ∧ (∃ why, ofTable t none = .error (.corrupt why)) ∧ t.SameOutline t' ∧
      ∃ e, ofTable t' none = .error e := by
  intro t t'
  have hrivals : t.HasRivalRows :=
    ⟨⟨.sdkLint, "a.B", .deprecated none, none⟩, ⟨.mavenCentral, "La/B;", .deprecated (some "C"), none⟩, by decide,
      rfl, .exact ⟨⟨[⟨['a'], by decide⟩, ⟨['B'], by decide⟩], by decide⟩, none⟩, by decide, by decide⟩
  have houtline : t.SameOutline t' := ⟨by simp [t, t', Table.patterns, or_comm, or_left_comm], by decide, by decide⟩
  obtain ⟨hrefused, hcorrupt, hsame⟩ := tables_refused t none
  obtain ⟨e, he⟩ := hrefused.2 (.inr (.inl hrivals))
  obtain ⟨why, rfl⟩ := hcorrupt e he
  exact ⟨hrivals, ⟨why, he⟩, houtline, (hsame t' none houtline).2 ⟨_, he⟩⟩

end Dataset

end ApiRules
