import ApiRules.Proofs.Dictionary
import ApiRules.Proofs.Merge.Keys
import ApiRules.Proofs.Reordering
import Mathlib.Data.List.Perm.Basic

/-!
The steps of a merge. A contribution changes what is kept for its own key only, and what it changes, reports
and counts depends on what is kept for this key only. Steps about different keys may be taken in any order.
-/
namespace ApiRules

/-- What a merge keeps for one key. -/
inductive Kept where
  | record (r : Record)
  | declaration (d : Declaration)
  | literal (value : String)

namespace MergeCounts

instance : RightCommutative note where
  right_comm n e f := by cases e <;> cases f <;> rfl

end MergeCounts

namespace MergeState

/-- What is kept for a key. -/
def kept (m : MergeState) : MergeKey → Option Kept
  | .rule p k => (m.records.find? fun r => r.key = (p, k)).map .record
  | .argument method index => (m.declarations.find? fun d => d.key = (method, index)).map .declaration
  | .constant name => (m.constants.get? name).map .literal

variable {m m' : MergeState}

theorem find?_record_eq {p : Pattern} {k : Kind} (h : m.kept (.rule p k) = m'.kept (.rule p k)) :
    (m.records.find? fun r => r.key = (p, k)) = m'.records.find? fun r => r.key = (p, k) :=
  Option.map_injective (fun _ _ => Kept.record.inj) h

theorem find?_declaration_eq {method : Signature} {index : UInt32}
    (h : m.kept (.argument method index) = m'.kept (.argument method index)) :
    (m.declarations.find? fun d => d.key = (method, index)) =
      m'.declarations.find? fun d => d.key = (method, index) :=
  Option.map_injective (fun _ _ => Kept.declaration.inj) h

theorem get?_constant_eq {name : String} (h : m.kept (.constant name) = m'.kept (.constant name)) :
    m.constants.get? name = m'.constants.get? name :=
  Option.map_injective (fun _ _ => Kept.literal.inj) h

theorem find?_rival_record {r : Record} (h : m.kept r.mergeKey = m'.kept r.mergeKey) :
    m.records.find? r.rivals = m'.records.find? r.rivals := by
  rw [Record.find?_rivals, Record.find?_rivals]
  exact find?_record_eq h

theorem find?_rival_declaration {d : Declaration} (h : m.kept d.mergeKey = m'.kept d.mergeKey) :
    m.declarations.find? d.rivals = m'.declarations.find? d.rivals := by
  rw [Declaration.find?_rivals, Declaration.find?_rivals]
  exact find?_declaration_eq h

/-- From the first state to the second these events are reported and counted. -/
def Logs (es : List MergeEvent) (m m' : MergeState) : Prop :=
  m'.events = m.events ++ es ∧ m'.counts = es.foldl MergeCounts.note m.counts

/-- The step is about this key, if any. What is kept for other keys stays, and what is kept for this one
afterwards, what is reported and what is counted depend on what is kept for it alone. -/
structure Touches (key : Option MergeKey) (step : MergeState → MergeState) : Prop where
  frame (m : MergeState) (k : MergeKey) : key ≠ some k → (step m).kept k = m.kept k
  own (m m' : MergeState) (k : MergeKey) :
    key = some k → m.kept k = m'.kept k → (step m).kept k = (step m').kept k
  log (m : MergeState) :
    ∃ es, ∀ m', (∀ k, key = some k → m.kept k = m'.kept k) → Logs es m' (step m')

theorem touches_skip {e : MergeEvent}
    (h : ∀ n : MergeCounts, n.note e = { n with skipped := n.skipped + 1 }) : Touches none (·.skip e) where
  frame _ k _ := by cases k <;> rfl
  own _ _ _ hk := by cases hk
  log m := by
    refine ⟨[e], ?_⟩
    intro m' _
    exact ⟨rfl, (h m'.counts).symm⟩

section Records

theorem exists_logs_addRecord (r : Record) (rival : Option Record) :
    ∃ es, ∀ m : MergeState, m.records.find? r.rivals = rival → Logs es m (m.addRecord r) := by
  obtain ⟨es, -, hadd⟩ := exists_addRecord r rival
  refine ⟨es, fun m hm => ?_⟩
  rw [hadd m hm]
  exact ⟨rfl, rfl⟩

theorem constants_addRecord (m : MergeState) (r : Record) : (m.addRecord r).constants = m.constants := by
  obtain ⟨es, -, hadd⟩ := exists_addRecord r (m.records.find? r.rivals)
  rw [hadd m rfl]

theorem touches_addRecord (r : Record) : Touches (some r.mergeKey) (·.addRecord r) where
  frame m k hk := by
    cases k with
    | rule p kind =>
      have hne : ¬r.key = (p, kind) := fun h => hk (congrArg some (Record.mergeKey_eq.2 h))
      simp only [kept, addRecord, Record.find?_settle, if_neg hne]
    | argument method index => simp only [kept, declarations_addRecord]
    | constant name => simp only [kept, constants_addRecord]
  own m m' k hk h := by
    obtain rfl := Option.some.inj hk
    have hf := find?_record_eq h
    simp only [Record.mergeKey, kept, addRecord, Record.find?_settle, hf]
  log m := by
    obtain ⟨es, hes⟩ := exists_logs_addRecord r (m.records.find? r.rivals)
    exact ⟨es, fun m' h => hes m' (find?_rival_record (h _ rfl)).symm⟩

end Records

section Declarations

theorem exists_logs_addDeclaration (d : Declaration) (rival : Option Declaration) :
    ∃ es, ∀ m : MergeState, m.declarations.find? d.rivals = rival → Logs es m (m.addDeclaration d) := by
  cases rival with
  | none =>
    refine ⟨[], ?_⟩
    intro m hm
    simp only [Logs, addDeclaration, hm, List.append_nil, List.foldl_nil, and_self]
  | some q =>
    refine ⟨if d.agrees q then [] else
      [.typedefConflict d.method d.typedef.argument q.typedef.source d.typedef.source], ?_⟩
    intro m hm
    simp only [addDeclaration, hm]
    split
    · exact ⟨(List.append_nil _).symm, rfl⟩
    · exact ⟨rfl, rfl⟩

theorem constants_addDeclaration (m : MergeState) (d : Declaration) :
    (m.addDeclaration d).constants = m.constants := by
  rw [addDeclaration]
  split
  · rfl
  · split <;> rfl

theorem touches_addDeclaration (d : Declaration) : Touches (some d.mergeKey) (·.addDeclaration d) where
  frame m k hk := by
    cases k with
    | rule p kind => simp only [kept, records_addDeclaration]
    | argument method index =>
      have hne : ¬d.key = (method, index) := fun h => hk (congrArg some (Declaration.mergeKey_eq.2 h))
      simp only [kept, declarations_addDeclaration, Declaration.find?_settle, if_neg hne]
    | constant name => simp only [kept, constants_addDeclaration]
  own m m' k hk h := by
    obtain rfl := Option.some.inj hk
    have hf := find?_declaration_eq h
    simp only [Declaration.mergeKey, kept, declarations_addDeclaration, Declaration.find?_settle, hf]
  log m := by
    obtain ⟨es, hes⟩ := exists_logs_addDeclaration d (m.declarations.find? d.rivals)
    exact ⟨es, fun m' h => hes m' (find?_rival_declaration (h _ rfl)).symm⟩

end Declarations

section Constants

variable (source : Source) (name value : String)

theorem exists_logs_addConstant (old : Option String) : ∃ es, ∀ m : MergeState,
    m.constants.get? name = old → Logs es m (m.addConstant source name value) := by
  cases old with
  | none =>
    refine ⟨[], ?_⟩
    intro m hm
    simp only [Logs, addConstant, hm, List.append_nil, List.foldl_nil, and_self]
  | some old =>
    refine ⟨if old = value then [] else [.constantConflict name old value source], ?_⟩
    intro m hm
    simp only [addConstant, hm]
    split
    · exact ⟨(List.append_nil _).symm, rfl⟩
    · exact ⟨rfl, rfl⟩

theorem get?_addConstant (m : MergeState) (k : String) :
    (m.addConstant source name value).constants.get? k =
      if k = name then some ((m.constants.get? name).getD value) else m.constants.get? k := by
  cases hf : m.constants.get? name with
  | none =>
    simp only [addConstant, hf]
    exact Dictionary.get?_insert m.constants name value k
  | some old =>
    have hc : (m.addConstant source name value).constants = m.constants := by
      simp only [addConstant, hf]
      split <;> rfl
    rw [hc]
    split
    · rename_i hk
      rw [hk, hf]
      rfl
    · rfl

theorem touches_addConstant : Touches (some (.constant name)) (·.addConstant source name value) where
  frame m k hk := by
    cases k with
    | rule p kind => simp only [kept, records_addConstant]
    | argument method index => simp only [kept, declarations_addConstant]
    | constant name' =>
      have hne : name' ≠ name := fun h => hk (h ▸ rfl)
      simp only [kept, get?_addConstant, if_neg hne]
  own m m' k hk h := by
    obtain rfl := Option.some.inj hk
    simp only [kept, get?_addConstant, get?_constant_eq h]
  log m := by
    obtain ⟨es, hes⟩ := exists_logs_addConstant source name value (m.constants.get? name)
    exact ⟨es, fun m' h => hes m' (get?_constant_eq (h _ rfl)).symm⟩

end Constants

theorem touches_add (c : Contribution) : Touches c.key? (·.add c) := by
  cases c.treated with
  | record r _ _ _ hkey hadd =>
    simp only [hkey, hadd]
    exact touches_addRecord r
  | declaration d _ _ _ hkey hadd =>
    simp only [hkey, hadd]
    exact touches_addDeclaration d
  | literal source name value h =>
    rw [h]
    exact touches_addConstant source name value
  | skipped e _ _ _ hkey hnote hadd =>
    simp only [hkey, hadd]
    exact touches_skip hnote

/-- The states keep the same, in any order, and have reported and counted the same. -/
structure Same (m m' : MergeState) : Prop where
  kept (k : MergeKey) : m.kept k = m'.kept k
  events : m.events.Perm m'.events
  counts : m.counts = m'.counts

theorem Same.refl (m : MergeState) : Same m m := ⟨fun _ => rfl, .refl _, rfl⟩

theorem Same.trans {m m' m'' : MergeState} (h : Same m m') (h' : Same m' m'') : Same m m'' :=
  ⟨fun k => (h.kept k).trans (h'.kept k), h.events.trans h'.events, h.counts.trans h'.counts⟩

variable {key key' : Option MergeKey} {step step' : MergeState → MergeState}

theorem Touches.same (ht : Touches key step) {m m' : MergeState} (h : Same m m') :
    Same (step m) (step m') := by
  obtain ⟨es, hlog⟩ := ht.log m
  obtain ⟨he, hc⟩ := hlog m fun k _ => rfl
  obtain ⟨he', hc'⟩ := hlog m' fun k _ => h.kept k
  refine ⟨?_, ?_, ?_⟩
  · intro k
    by_cases hk : key = some k
    · exact ht.own m m' k hk (h.kept k)
    · rw [ht.frame m k hk, ht.frame m' k hk, h.kept k]
  · rw [he, he']
    exact h.events.append_right es
  · rw [hc, hc', h.counts]

/-- Steps about different keys may be taken in either order. -/
theorem Touches.comm (ht : Touches key step) (ht' : Touches key' step')
    (hne : ∀ k, key = some k → key' ≠ some k) (m : MergeState) :
    Same (step' (step m)) (step (step' m)) := by
  have hne' : ∀ k, key' = some k → key ≠ some k := fun k hk' hk => hne k hk hk'
  obtain ⟨es, hlog⟩ := ht.log m
  obtain ⟨fs, hlog'⟩ := ht'.log m
  obtain ⟨he, hc⟩ := hlog m fun k _ => rfl
  obtain ⟨hf, hd⟩ := hlog' m fun k _ => rfl
  -- each step finds what it depends on as it was, because the other one is about another key
  obtain ⟨he', hc'⟩ := hlog (step' m) fun k hk => (ht'.frame m k (hne k hk)).symm
  obtain ⟨hf', hd'⟩ := hlog' (step m) fun k hk => (ht.frame m k (hne' k hk)).symm
  refine ⟨?_, ?_, ?_⟩
  · intro k
    by_cases hk : key = some k
    · have hk' := hne k hk
      rw [ht'.frame _ k hk']
      exact ht.own _ _ k hk (ht'.frame m k hk').symm
    · rw [ht.frame _ k hk]
      by_cases hk' : key' = some k
      · exact ht'.own _ _ k hk' (ht.frame m k hk)
      · rw [ht'.frame _ k hk', ht.frame m k hk, ht'.frame m k hk']
  · rw [hf', he', he, hf, List.append_assoc, List.append_assoc]
    exact List.perm_append_comm.append_left m.events
  · rw [hd', hc', hc, hd, ← List.foldl_append, ← List.foldl_append]
    exact List.perm_append_comm.foldl_eq m.counts

/-- Contributions without a key, and those of different keys, may come in any order. -/
theorem same_foldl_add {cs cs' : List Contribution} (hp : cs.Perm cs')
    (hk : ∀ k, cs.filter (fun c => c.key? = some k) = cs'.filter fun c => c.key? = some k)
    (m : MergeState) : Same (cs.foldl add m) (cs'.foldl add m) :=
  Sequences.foldl_related_of_perm Same.refl Same.trans (fun c h => (touches_add c).same h)
    (fun c d hne => (touches_add c).comm (touches_add d) hne) hp hk (.refl m)

end MergeState

end ApiRules
