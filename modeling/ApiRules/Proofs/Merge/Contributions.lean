import ApiRules.Merge.State

/-!
What the merge does with a contribution. It takes up a record, a declaration or a literal, and leaves out what
cannot be read.
-/
namespace ApiRules

/-- Of what has one key a merge keeps one. -/
inductive MergeKey where
  | rule (pattern : Pattern) (kind : Kind)
  | argument (method : Signature) (index : UInt32)
  | constant (name : String)
  deriving DecidableEq

def Record.mergeKey (r : Record) : MergeKey := .rule r.pattern r.kind

def Declaration.mergeKey (d : Declaration) : MergeKey := .argument d.method d.typedef.argument

namespace MergeCounts

/-- The counts after one more event. -/
def note (n : MergeCounts) : MergeEvent → MergeCounts
  | .conflict _ _ => { n with conflicts := n.conflicts + 1 }
  | .duplicate _ _ _ _ => { n with duplicates := n.duplicates + 1 }
  | .intersection _ _ _ _ => { n with intersections := n.intersections + 1 }
  | .invalidPattern _ _ _ | .typedefOnNonMethod _ _ | .invalidMethod _ _ _ =>
    { n with skipped := n.skipped + 1 }
  | .typedefConflict _ _ _ _ => { n with typedefConflicts := n.typedefConflicts + 1 }
  | .constantConflict _ _ _ _ => n

/-- How many records met the one that is kept. -/
def met (n : MergeCounts) : Nat := n.conflicts + n.duplicates + n.intersections

/-- The events count so many records that met the one that is kept, and nothing else. -/
structure CountsMet (es : List MergeEvent) (count : Nat) : Prop where
  met (n : MergeCounts) : (es.foldl note n).met = n.met + count
  skipped (n : MergeCounts) : (es.foldl note n).skipped = n.skipped
  typedefConflicts (n : MergeCounts) : (es.foldl note n).typedefConflicts = n.typedefConflicts

end MergeCounts

namespace MergeState

theorem exists_meet (kept r : Record) : ∃ e, MergeCounts.CountsMet [e] 1 ∧
    ∀ m : MergeState, m.meet kept r = { m with counts := m.counts.note e, events := m.events ++ [e] } := by
  unfold meet
  split
  · rename_i old new _ _
    refine ⟨.intersection kept.pattern r.kind old new, ⟨?_, fun n => rfl, fun n => rfl⟩, fun m => rfl⟩
    exact fun n => rfl
  · split
    · refine ⟨.duplicate kept.pattern r.kind kept.source r.source, ⟨?_, fun n => rfl, fun n => rfl⟩, fun m => rfl⟩
      intro n
      simp only [MergeCounts.met, List.foldl_cons, List.foldl_nil, MergeCounts.note]
      omega
    · refine ⟨.conflict kept r, ⟨?_, fun n => rfl, fun n => rfl⟩, fun m => rfl⟩
      intro n
      simp only [MergeCounts.met, List.foldl_cons, List.foldl_nil, MergeCounts.note]
      omega

/-- A record changes the kept records, and is counted and reported if it meets one of them. -/
theorem exists_addRecord (r : Record) (rival : Option Record) :
    ∃ es, MergeCounts.CountsMet es rival.isSome.toNat ∧
      ∀ m : MergeState, m.records.find? r.rivals = rival → m.addRecord r =
        ⟨r.settle m.records, m.declarations, m.constants, es.foldl MergeCounts.note m.counts, m.events ++ es⟩ := by
  cases rival with
  | none =>
    refine ⟨[], ⟨fun n => rfl, fun n => rfl, fun n => rfl⟩, fun m hm => ?_⟩
    simp only [addRecord, hm, List.append_nil, List.foldl_nil]
  | some kept =>
    obtain ⟨e, he, hmeet⟩ := exists_meet kept r
    refine ⟨[e], he, fun m hm => ?_⟩
    simp only [addRecord, hm, hmeet, List.foldl_cons, List.foldl_nil]

end MergeState

namespace Contribution

/-- The record in a contribution, if its pattern can be read. -/
def record? : Contribution → Option Record
  | .record source text payload artifact =>
    match Pattern.parse text with
    | .ok pattern => some ⟨pattern, payload, source, artifact⟩
    | .error _ => none
  | _ => none

/-- The declaration in a contribution, if it is about a method that can be read. -/
def declaration? : Contribution → Option Declaration
  | .typedef t =>
    match Signature.parse t.method with
    | .ok method => if method.isMethod then some ⟨method, { t with method := method.text }⟩ else none
    | .error _ => none
  | _ => none

/-- The literal that a contribution gives a constant. -/
def literal? (name : String) : Contribution → Option String
  | .constant _ other value => if other = name then some value else none
  | _ => none

/-- The key of a contribution that is not skipped. -/
def key? : Contribution → Option MergeKey
  | .constant _ name _ => some (.constant name)
  | c => (c.record?.map Record.mergeKey).or (c.declaration?.map Declaration.mergeKey)

/-- What the merge does with a contribution. -/
inductive Treated (c : Contribution) : Prop
  | record (r : Record) (hrecord : c.record? = some r) (hdeclaration : c.declaration? = none)
      (hliteral : ∀ name, c.literal? name = none) (hkey : c.key? = some r.mergeKey)
      (hadd : ∀ m : MergeState, m.add c = m.addRecord r)
  | declaration (d : Declaration) (hrecord : c.record? = none) (hdeclaration : c.declaration? = some d)
      (hliteral : ∀ name, c.literal? name = none) (hkey : c.key? = some d.mergeKey)
      (hadd : ∀ m : MergeState, m.add c = m.addDeclaration d)
  | literal (source : Source) (name value : String) (h : c = .constant source name value)
  | skipped (e : MergeEvent) (hrecord : c.record? = none) (hdeclaration : c.declaration? = none)
      (hliteral : ∀ name, c.literal? name = none) (hkey : c.key? = none)
      (hnote : ∀ n : MergeCounts, n.note e = { n with skipped := n.skipped + 1 })
      (hadd : ∀ m : MergeState, m.add c = m.skip e)

theorem treated (c : Contribution) : c.Treated := by
  cases c with
  | record source text payload artifact =>
    cases hp : Pattern.parse text with
    | error e =>
      refine .skipped (.invalidPattern text source e) ?_ rfl (fun _ => rfl) ?_ (fun _ => rfl) fun m => ?_
      all_goals simp [record?, declaration?, key?, MergeState.add, hp]
    | ok pattern =>
      refine .record ⟨pattern, payload, source, artifact⟩ ?_ rfl (fun _ => rfl) ?_ fun m => ?_
      all_goals simp [record?, key?, MergeState.add, hp]
  | typedef t =>
    cases hp : Signature.parse t.method with
    | error e =>
      refine .skipped (.invalidMethod t.method t.source e) rfl ?_ (fun _ => rfl) ?_ (fun _ => rfl) fun m => ?_
      all_goals simp [record?, declaration?, key?, MergeState.add, hp]
    | ok method =>
      by_cases hm : method.isMethod = true
      · refine .declaration ⟨method, { t with method := method.text }⟩ rfl ?_ (fun _ => rfl) ?_ fun m => ?_
        all_goals simp [record?, declaration?, key?, MergeState.add, hp, hm]
      · refine .skipped (.typedefOnNonMethod t.method t.source) rfl ?_ (fun _ => rfl) ?_ (fun _ => rfl) fun m => ?_
        all_goals simp [record?, declaration?, key?, MergeState.add, hp, hm]
  | constant source name value => exact .literal source name value rfl

end Contribution

theorem Partial.filterMap_contributions {α : Type} (f : Contribution → Option α) (p : Partial) :
    p.contributions.filterMap f =
      (p.records.filterMap fun r => f (.record p.source r.pattern r.payload (r.artifact <|> p.artifact))) ++
      (p.typedefs.filterMap fun t => f (.typedef
        ⟨t.method, t.argument, t.kind, t.flag, t.constants, p.source, t.artifact <|> p.artifact⟩)) ++
      p.constants.entries.filterMap fun e => f (.constant p.source e.1 e.2) := by
  simp only [contributions, List.filterMap_append, List.filterMap_map, Function.comp_def]

end ApiRules
