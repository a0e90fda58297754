import ApiRules.Partial.Encoding
import ApiRules.Proofs.Dictionary
import ApiRules.Proofs.Rule.Encoding

/-!
Partial datasets are read back from their texts. The fields of a record and of its payload are members of one
object, so no name may stand for two of them.
-/
namespace ApiRules

open Json

theorem Source.ofName?_name (s : Source) : ofName? s.name = some s := by
  cases s <;> rfl

theorem ConstantKind.ofName?_name (k : ConstantKind) : ofName? k.name = some k := by
  cases k <;> rfl

namespace Partial

namespace Record

def members (r : Record) : List (String × Value) :=
  ("pattern", .ofText r.pattern) ::
    (r.payload.members ++ optionalMember "artifact" Value.ofText r.artifact)

variable (r : Record)

theorem names_members :
    (r.members.map Prod.fst).Sublist ("pattern" :: (Payload.fieldNames ++ ["artifact"])) := by
  rw [members, List.map_cons, List.map_append]
  exact .cons_cons _ (r.payload.names_members.append (names_optionalMember _ _ r.artifact))

theorem lookup_members_of_mem {name : String} (h : name ∈ Payload.fieldNames) :
    r.members.lookup name = r.payload.members.lookup name := by
  have hne : ∀ name ∈ Payload.fieldNames, name ≠ "pattern" ∧ name ≠ "artifact" := by decide
  obtain ⟨hp, ha⟩ := hne name h
  rw [members, Sequences.lookup_cons_eq, if_neg hp, List.lookup_append, lookup_optionalMember, if_neg ha,
    Option.or_none]

theorem lookup_artifact : r.members.lookup "artifact" = r.artifact.map Value.ofText := by
  have hnot : "artifact" ∉ r.payload.members.map Prod.fst := fun hm =>
    absurd (r.payload.names_members.subset hm) (by decide)
  have hne : "artifact" ≠ "pattern" := by decide
  rw [members, Sequences.lookup_cons_eq, if_neg hne, List.lookup_append, Sequences.lookup_eq_none hnot,
    lookup_optionalMember, if_pos rfl, Option.none_or]

theorem writable_toJson {levels : Nat} : r.toJson.Writable (levels + 2) := by
  refine Value.writable_ofMembers (List.forall_mem_cons.2 ⟨Value.writable_ofText r.pattern, ?_⟩)
  refine List.forall_mem_append.2 ⟨r.payload.writable_members, ?_⟩
  exact forall_optionalMember Value.writable_ofText

theorem ofJson?_toJson : ofJson? r.toJson = some r := by
  have hw : r.toJson.Writable (nestingLimit - 2) := r.writable_toJson
  have hobject : Parts.ofObject? r.toJson = some (.ofMembers r.members) :=
    Parts.ofObject?_ofMembers r.members
  have hnodup := r.names_members.nodup (by decide)
  have hget := Parts.get?_ofMembers hnodup
  have hpattern := Parts.required_eq_some (hget "pattern" 0) (Value.text?_ofText r.pattern)
  have hpayload := Payload.ofParts?_of_lookup hnodup (fun _ => r.lookup_members_of_mem) true
  have hartifact : (Parts.ofMembers r.members).optional "artifact" 0 Value.text? = some r.artifact :=
    Parts.optional_eq_some Value.text?_ofText Value.ofText_ne_null (by rw [hget, r.lookup_artifact])
  simp [ofJson?, hw.isSound, hobject, hpattern, hpayload, hartifact]

end Record

theorem kindOfJson?_ofText (k : ConstantKind) : kindOfJson? (.ofText k.name) = some k := k.ofName?_name

namespace Typedef

def members (t : Typedef) : List (String × Value) :=
  [("method", .ofText t.method), ("argument", .ofWord t.argument), ("kind", .ofText t.kind.name),
    ("flag", .bool t.flag), ("constants", .array (t.constants.map Value.ofText))] ++
    optionalMember "artifact" Value.ofText t.artifact

variable (t : Typedef)

theorem names_members : (t.members.map Prod.fst).Sublist
    (["method", "argument", "kind", "flag", "constants"] ++ ["artifact"]) := by
  rw [members, List.map_append]
  exact (List.Sublist.refl _).append (names_optionalMember _ _ t.artifact)

theorem writable_toJson {levels : Nat} : t.toJson.Writable (levels + 2) := by
  have hconstants : (Value.array (t.constants.map Value.ofText)).Writable (levels + 1) :=
    Value.writable_map fun s _ => Value.writable_ofText s
  refine Value.writable_ofMembers (List.forall_mem_append.2 ⟨?_, forall_optionalMember Value.writable_ofText⟩)
  simp [Value.writable_ofText, Value.writable_ofWord, Value.writable_bool, hconstants]

theorem ofJson?_toJson : ofJson? t.toJson = some t := by
  have hvalue : Parts.ofValue? t.toJson = some (.ofMembers t.members) := Parts.ofValue?_ofMembers t.members
  have hget := Parts.get?_ofMembers (t.names_members.nodup (by decide))
  have hmethod := Parts.required_eq_some (hget "method" 0) (Value.text?_ofText t.method)
  have hargument := Parts.required_eq_some (hget "argument" 1) (Value.word?_ofWord t.argument)
  have hkind := Parts.required_eq_some (hget "kind" 2) (kindOfJson?_ofText t.kind)
  have hflag := Parts.orElse_eq_some false (hget "flag" 3) (Value.bool?_bool t.flag)
  have hconstants := Parts.orElse_eq_some [] (hget "constants" 4)
    (Value.list?_map fun s _ => Value.text?_ofText s)
  have hartifact : (Parts.ofMembers t.members).optional "artifact" 5 Value.text? = some t.artifact := by
    refine Parts.optional_eq_some Value.text?_ofText Value.ofText_ne_null ((hget _ 5).trans ?_)
    simp [members, Sequences.lookup_cons_eq, lookup_optionalMember]
  simp [ofJson?, hvalue, hmethod, hargument, hkind, hflag, hconstants, hartifact]

end Typedef

theorem sourceOfJson?_ofText (s : Source) : sourceOfJson? (.ofText s.name) = some s := s.ofName?_name

/-- The member of an object for each entry. -/
def constantMembers (d : Dictionary) : List (String × Value) := d.entries.map fun (k, v) => (k, .ofText v)

theorem constantsOfJson?_ofMembers (d : Dictionary) :
    constantsOfJson? (.ofMembers (constantMembers d)) = some d := by
  have hm : (d.entries.map fun (k, v) => ((some k, .ofText v) : Literal × Value)).mapM constantOfMember? =
      some d.entries := Sequences.mapM_map_eq_some fun _ _ => rfl
  rw [constantMembers, Value.ofMembers, List.map_map, constantsOfJson?]
  exact (congrArg (Option.map Dictionary.ofList) hm).trans (congrArg some d.ofList_entries)

variable (p : Partial)

/-- The members that a reader may miss. -/
def contents : List (String × Value) :=
  [("records", .array (p.records.map Record.toJson)),
    ("typedefs", .array (p.typedefs.map Typedef.toJson)),
    ("constants", .ofMembers (constantMembers p.constants))]

def members : List (String × Value) :=
  ("source", .ofText p.source.name) :: (optionalMember "artifact" Value.ofText p.artifact ++ p.contents)

theorem names_members : (p.members.map Prod.fst).Sublist
    ("source" :: (["artifact"] ++ ["records", "typedefs", "constants"])) := by
  rw [members, List.map_cons, List.map_append]
  exact .cons_cons _ ((names_optionalMember _ _ p.artifact).append (List.Sublist.refl _))

theorem lookup_artifact : p.members.lookup "artifact" = p.artifact.map Value.ofText := by
  simp [members, contents, Sequences.lookup_cons_eq, List.lookup_append, lookup_optionalMember]

theorem lookup_members_of_ne {name : String} (hs : name ≠ "source") (ha : name ≠ "artifact") :
    p.members.lookup name = p.contents.lookup name := by
  rw [members, Sequences.lookup_cons_eq, if_neg hs, List.lookup_append, lookup_optionalMember, if_neg ha,
    Option.none_or]

theorem writable_toJson : p.toJson.Writable nestingLimit := by
  have hconstants : ∀ m ∈ constantMembers p.constants, m.2.Writable 125 := by
    intro m hm
    obtain ⟨e, -, rfl⟩ := List.mem_map.1 hm
    exact Value.writable_ofText e.2
  refine Value.writable_ofMembers (List.forall_mem_cons.2 ⟨Value.writable_ofText p.source.name, ?_⟩)
  refine List.forall_mem_append.2 ⟨forall_optionalMember Value.writable_ofText, ?_⟩
  simp only [List.forall_mem_cons, List.not_mem_nil, false_implies, implies_true, and_true]
  exact ⟨Value.writable_map fun r _ => r.writable_toJson, Value.writable_map fun t _ => t.writable_toJson,
    Value.writable_ofMembers hconstants⟩

theorem ofJson?_toJson : ofJson? p.toJson = some p := by
  have hvalue : Parts.ofValue? p.toJson = some (.ofMembers p.members) := Parts.ofValue?_ofMembers p.members
  have hget := Parts.get?_ofMembers (p.names_members.nodup (by decide))
  have hcontents : ∀ name place, name ≠ "source" → name ≠ "artifact" →
      (Parts.ofMembers p.members).get? name place = some (p.contents.lookup name) :=
    fun name place hs ha => (hget name place).trans (congrArg some (p.lookup_members_of_ne hs ha))
  have hsource := Parts.required_eq_some (hget "source" 0) (sourceOfJson?_ofText p.source)
  have hartifact : (Parts.ofMembers p.members).optional "artifact" 1 Value.text? = some p.artifact :=
    Parts.optional_eq_some Value.text?_ofText Value.ofText_ne_null (by rw [hget, p.lookup_artifact])
  have hrecords := Parts.orElse_eq_some [] (hcontents "records" 2 (by decide) (by decide))
    (Value.list?_map fun r _ => r.ofJson?_toJson)
  have htypedefs := Parts.orElse_eq_some [] (hcontents "typedefs" 3 (by decide) (by decide))
    (Value.list?_map fun t _ => t.ofJson?_toJson)
  have hconstants := Parts.orElse_eq_some .empty (hcontents "constants" 4 (by decide) (by decide))
    (constantsOfJson?_ofMembers p.constants)
  simp [ofJson?, hvalue, hsource, hartifact, hrecords, htypedefs, hconstants]

/-- What is written of a partial dataset says all of it. -/
theorem json_round_trip : parse? p.text = some p := by
  rw [parse?, text, Value.parse?_text p.writable_toJson.wellFormed]
  exact p.ofJson?_toJson

end Partial

end ApiRules
