import ApiRules.Proofs.Dataset.Rows
import ApiRules.Proofs.Signature.Owner
import Mathlib.Data.List.Perm.Basic
import Mathlib.Data.List.Range

/-!
The positions in the indexes of a dataset. Each push adds the position of its record to one slot of one index,
so that a loaded dataset has each position once and no others. Look-ups find what the positions lead to, for a
signature and for an owner in any of its spellings.
-/
namespace ApiRules

namespace Index

variable {κ : Type} [DecidableEq κ]

theorem positions_addTo (key : κ) (position : Nat) (slots : List (κ × List Nat)) :
    ((addTo key position slots).flatMap Prod.snd).Perm (slots.flatMap Prod.snd ++ [position]) := by
  induction slots with
  | nil => exact .refl _
  | cons slot slots ih =>
    obtain ⟨k, ps⟩ := slot
    rw [addTo]
    split
    · simp only [List.flatMap_cons, List.append_assoc]
      exact List.perm_append_comm.append_left ps
    · simp only [List.flatMap_cons, List.append_assoc]
      exact ih.append_left ps

theorem positions_add (index : Index κ) (key : κ) (position : Nat) :
    (index.add key position).positions.Perm (index.positions ++ [position]) :=
  positions_addTo key position index.slots

end Index

namespace Dataset

/-- The positions in both indexes. -/
def indexedPositions (d : Dataset) : List Nat := d.exact.positions ++ d.under.positions

theorem indexedPositions_push (d : Dataset) (r : Record) :
    (d.push r).indexedPositions.Perm (d.indexedPositions ++ [d.records.length]) := by
  rw [push]
  cases r.pattern with
  | exact s =>
    have hadd := (d.exact.positions_add s d.records.length).append_right d.under.positions
    refine hadd.trans ?_
    simp only [indexedPositions, List.append_assoc]
    exact List.perm_append_comm.append_left _
  | under o =>
    have hadd := (d.under.positions_add o d.records.length).append_left d.exact.positions
    simpa only [indexedPositions, List.append_assoc] using hadd

theorem indexedPositions_foldl_push (rs : List Record) {d : Dataset}
    (h : d.indexedPositions.Perm (List.range d.records.length)) :
    (rs.foldl push d).indexedPositions.Perm (List.range (rs.foldl push d).records.length) := by
  induction rs generalizing d with
  | nil => exact h
  | cons r rs ih =>
    apply ih
    rw [records_push, List.length_append, List.length_singleton, List.range_succ]
    exact (d.indexedPositions_push r).trans (h.append_right _)

theorem indexedPositions_made (digest : Option Digest) (rs : List Record)
    (declared : List (Signature × Typedef)) :
    (made digest rs declared).indexedPositions.Perm (List.range (made digest rs declared).records.length) :=
  indexedPositions_foldl_push rs (.refl [])

theorem lookupUnder_eq_error {d : Dataset} {text : String} {e : SignatureError} :
    d.lookupUnder text = .error e ↔ Signature.ofClass (String.ofList (Owner.underName text)) = .error e := by
  rw [lookupUnder, map_eq_error_iff, Owner.parseUnder_eq, Owner.ofClass_eq_error]

theorem Indexed.lookupUnder_eq_ok {d : Dataset} (h : d.Indexed) {text : String} {rs : List Record} :
    d.lookupUnder text = .ok rs ↔
      ∃ o, Pattern.parse (String.ofList (Owner.underName text ++ ['.', '*'])) = .ok (.under o) ∧
        rs = d.records.filter fun r => r.pattern = .under o := by
  simp only [lookupUnder, map_eq_ok_iff, Owner.parseUnder_eq, Owner.parse_eq_under, h.lookupOwner]

/-- What a loaded dataset holds and what is found in it. Its records are the rows of the table. The indexes have
the position of each record once and no other position. For a signature all records of this pattern are found,
in the order of the dataset. For a text, an owner has to stand before the `.*` that may end it, and then all
records are found of the pattern that the owner is with `.*` behind it. -/
theorem lookups_of_loaded_table {t : Table} {digest : Option Digest} {d : Dataset}
    (h : ofTable t digest = .ok d) :
    List.Forall₂ Table.Row.Reads t.rows d.records ∧
    (∀ i ∈ d.indexedPositions, i < d.records.length) ∧
    d.indexedPositions.Perm (List.range d.records.length) ∧
    (∀ s, d.lookupExact s = d.records.filter fun r => r.pattern = .exact s) ∧
    ∀ text, let name := Owner.underName text
      (∀ e, d.lookupUnder text = .error e ↔ Signature.ofClass (String.ofList name) = .error e) ∧
      ∀ rs, d.lookupUnder text = .ok rs ↔
        ∃ o, Pattern.parse (String.ofList (name ++ ['.', '*'])) = .ok (.under o) ∧
          rs = d.records.filter fun r => r.pattern = .under o := by
  obtain ⟨rs, declared, hrs, -, -, -, rfl⟩ := ofTable_eq_ok.1 h
  have hindexed := indexed_made digest rs declared
  have hpositions := indexedPositions_made digest rs declared
  refine ⟨?_, fun i hi => List.mem_range.1 (hpositions.mem_iff.1 hi), hpositions, hindexed.lookupExact, ?_⟩
  · rw [records_made]
    exact Table.reads_rows hrs
  · exact fun text => ⟨fun e => lookupUnder_eq_error, fun rs => hindexed.lookupUnder_eq_ok⟩

/-- Two sources speak about one package in two spellings, and a class stands between them. The package is found in
a third spelling; a name without a segment is not looked up. -/
theorem lookups_of_package_in_two_sources :
    let package : Owner := ⟨[⟨['a'], by decide⟩, ⟨['b'], by decide⟩], by decide⟩
    let s : Signature := ⟨⟨[⟨['a'], by decide⟩, ⟨['b'], by decide⟩, ⟨['C'], by decide⟩], by decide⟩, none⟩
    let rs : List Record :=
      [⟨.under package, .removed (some 30), .sdkLint, none⟩, ⟨.exact s, .deprecated none, .sdkLint, none⟩,
        ⟨.under package, .deprecated none, .mavenCentral, some "lib"⟩]
    let t : Table :=
      ⟨[⟨.sdkLint, [⟨"a.b.*", [⟨.removed (some 30), none⟩]⟩, ⟨"a.b.C", [⟨.deprecated none, none⟩]⟩]⟩,
          ⟨.mavenCentral, [⟨" a/b.* ", [⟨.deprecated none, some "lib"⟩]⟩]⟩], [], []⟩
    let d := Dataset.made none rs []
    Dataset.ofTable t none = .ok d ∧ List.Forall₂ Table.Row.Reads t.rows rs ∧
      d.indexedPositions.Perm [0, 1, 2] ∧ d.lookupExact s = [⟨.exact s, .deprecated none, .sdkLint, none⟩] ∧
      d.lookupUnder "La/b;" = .ok [⟨.under package, .removed (some 30), .sdkLint, none⟩,
        ⟨.under package, .deprecated none, .mavenCentral, some "lib"⟩] ∧
      d.lookupUnder "a..b.*" = .error (.invalidOwner "a..b") := by
  intro package s rs t d
  have hd : Dataset.ofTable t none = .ok d := rfl
  obtain ⟨hrows, -, hpositions, hexact, hunder⟩ := lookups_of_loaded_table hd
  refine ⟨hd, hrows, hpositions, ?_, ?_, ?_⟩
  · rw [hexact]
    decide
  · exact ((hunder _).2 _).2 ⟨package, by decide, by decide⟩
  · exact ((hunder _).1 _).2 (by decide)

end Dataset

end ApiRules
