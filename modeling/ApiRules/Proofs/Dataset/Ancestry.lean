import ApiRules.Proofs.Dataset.Contents
import ApiRules.Proofs.Signature.Ancestry

/-!
The walk from the owner of a signature outwards. Its levels are the leading runs of the owner's names, and each
record of a level is met once, there.
-/
namespace ApiRules

namespace Dataset

/-- The records that a look-up of the ancestry yields, each with its level. -/
def metAround (d : Dataset) (s : Signature) : List (Owner × Record) :=
  (d.lookupAncestry s).flatMap fun (o, rs) => rs.map fun r => (o, r)

namespace Represents

variable {d : Dataset} {t : Table} (h : d.Represents t)

include h

theorem mem_metAround {s : Signature} {o : Owner} {r : Record} :
    (o, r) ∈ d.metAround s ↔ t.Has r ∧ r.pattern = .under o ∧ o.segments <+: s.owner.segments := by
  rw [← Owner.mem_ancestry, ← and_assoc, ← h.mem_lookupOwner]
  simp [metAround, lookupAncestry, and_comm]

theorem nodup_map_metAround (s : Signature) : ((d.metAround s).map Prod.snd).Nodup := by
  have hmet : (d.metAround s).map Prod.snd = s.owner.ancestry.flatMap d.lookupOwner := by
    simp [metAround, lookupAncestry, List.map_flatMap, List.flatMap_map, Function.comp_def]
  have hrecords : d.records.Nodup := h.nodup_keys.of_map Record.key
  rw [hmet, List.nodup_flatMap]
  constructor
  · intro o _
    rw [h.indexed.lookupOwner]
    exact hrecords.filter _
  · apply s.owner.nodup_ancestry.imp
    intro o p hne r ho hp
    -- a record has one pattern, so that it stands under one owner
    have hpattern := (h.mem_lookupOwner.1 ho).2.symm.trans (h.mem_lookupOwner.1 hp).2
    exact hne (Pattern.under.inj hpattern)

end Represents

/-- Owner patterns match by whole names. The levels around a signature are found by cutting its owner at the last
dot again and again. They are the leading runs of its names, from the owner to its first name, and each is an owner
in its canonical spelling. A loaded table yields there, once and at its own level, every record of an owner whose
names are such a run, and no other record. -/
theorem ancestry_by_whole_names (s : Signature) :
    s.owner.ancestry.map Owner.chars = Text.outwards s.owner.chars ∧
    Text.outwards s.owner.chars =
      (Text.splitOn '.' s.owner.chars).inits.tail.reverse.map (Text.joinWith '.') ∧
    (Text.outwards s.owner.chars).head? = some s.owner.chars ∧
    (Text.outwards s.owner.chars).getLast? = (Text.splitOn '.' s.owner.chars).head? ∧
    (Text.outwards s.owner.chars).Nodup ∧
    (∀ level ∈ Text.outwards s.owner.chars, ∃ o, Owner.parse level = .ok o ∧ o.chars = level) ∧
    ∀ t digest d, ofTable t digest = .ok d →
      (d.lookupAncestry s).map Prod.fst = s.owner.ancestry ∧
      (∀ o r, (o, r) ∈ d.metAround s ↔ t.Has r ∧ r.pattern = .under o ∧ o.segments <+: s.owner.segments) ∧
      ((d.metAround s).map Prod.snd).Nodup ∧
      ∀ level ∈ d.lookupAncestry s, level.2 = d.records.filter fun r => r.pattern = .under level.1 := by
  refine ⟨s.owner.map_chars_ancestry, s.owner.outwards_chars, Text.head?_outwards _, s.owner.getLast?_outwards,
    s.owner.nodup_outwards, fun level hlevel => ?_, fun t digest d hload => ?_⟩
  · rw [← Owner.map_chars_ancestry] at hlevel
    obtain ⟨o, -, rfl⟩ := List.mem_map.1 hlevel
    exact ⟨o, o.parse_chars, rfl⟩
  · have h := represents_of_ofTable hload
    refine ⟨by simp [lookupAncestry, Function.comp_def], fun o r => h.mem_metAround, h.nodup_map_metAround s, ?_⟩
    intro level hlevel
    obtain ⟨o, -, rfl⟩ := List.mem_map.1 hlevel
    exact h.indexed.lookupOwner o

/-- The rules of `com.an` are not met around a class of `com.android`, whose name only begins with the same
letters. -/
theorem ancestry_of_class_beside_lookalike :
    let com : Segment := ⟨"com".toList, by decide⟩
    let an : Owner := ⟨[com, ⟨"an".toList, by decide⟩], by decide⟩
    let android : Owner := ⟨[com, ⟨"android".toList, by decide⟩], by decide⟩
    let s : Signature := ⟨⟨[com, ⟨"android".toList, by decide⟩, ⟨"View".toList, by decide⟩], by decide⟩, none⟩
    let t : Table :=
      ⟨[⟨.sdkLint, [⟨"com.an.*", [⟨.removed none, none⟩]⟩, ⟨"com/android.*", [⟨.minApiLevel 21, none⟩]⟩]⟩], [], []⟩
    let hidden : Record := ⟨.under an, .removed none, .sdkLint, none⟩
    let met : Record := ⟨.under android, .minApiLevel 21, .sdkLint, none⟩
    let d := made none [hidden, met] []
    ofTable t none = .ok d ∧
      Text.outwards s.owner.chars = ["com.android.View".toList, "com.android".toList, "com".toList] ∧
      (android, met) ∈ d.metAround s ∧ ∀ o, (o, hidden) ∉ d.metAround s := by
  intro com an android s t hidden met d
  have hload : ofTable t none = .ok d := by cbv
  obtain ⟨-, hruns, -, -, -, -, htable⟩ := ancestry_by_whole_names s
  obtain ⟨-, hmem, -, -⟩ := htable t none d hload
  have h := represents_of_ofTable hload
  refine ⟨hload, ?_, ?_, fun o ho => ?_⟩
  · rw [hruns]
    decide
  · exact (hmem android met).2 ⟨(h.mem_records met).1 (by rw [records_made]; simp), rfl, by decide⟩
  · obtain ⟨-, hpattern, hleads⟩ := (hmem o hidden).1 ho
    obtain rfl := Pattern.under.inj hpattern
    revert hleads
    decide

end Dataset

end ApiRules
