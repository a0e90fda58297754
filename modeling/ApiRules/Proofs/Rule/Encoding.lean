import ApiRules.Proofs.Json.Parts
import ApiRules.Proofs.Json.Reader
import ApiRules.Rule.Encoding

/-!
Payloads are read back from their members, also where other members stand beside them.
-/
namespace ApiRules

open Json

namespace Visibility

theorem names_members (v : Visibility) :
    (v.members.map Prod.fst).Sublist ["type", "max_target_api"] := by
  cases v with
  | hidden => exact .cons_cons _ (List.nil_sublist _)
  | testOnly => exact .cons_cons _ (List.nil_sublist _)
  | conditional level => exact .cons_cons _ (names_optionalMember _ _ level)

/-- The name in data. -/
def typeName : Visibility → String
  | hidden => "hidden"
  | testOnly => "test_only"
  | conditional _ => "conditional"

theorem lookup_type (v : Visibility) : v.members.lookup "type" = some (.ofText v.typeName) := by
  cases v <;> rfl

theorem ofJson?_toJson (v : Visibility) : ofJson? v.toJson = some v := by
  have hget := Parts.get?_ofMembers (v.names_members.nodup (by decide))
  have htype : (Parts.ofMembers v.members).required "type" 0 (alternative? typeNames true) =
      some v.typeName := Parts.required_eq_some (by rw [hget, lookup_type]) rfl
  have hparts : ofJson? v.toJson = ofParts? (.ofMembers v.members) := by
    rw [ofJson?, toJson, Parts.ofValue?_ofMembers]
    rfl
  rw [hparts]
  cases v with
  | hidden => simp [ofParts?, htype, typeName]
  | testOnly => simp [ofParts?, htype, typeName]
  | conditional level =>
    have hlevel : (Parts.ofMembers (conditional level).members).optional "max_target_api" 1 Value.word? =
        some level := by
      refine Parts.optional_eq_some Value.word?_ofWord Value.ofWord_ne_null ((hget _ 1).trans ?_)
      simp [members, Sequences.lookup_cons_eq, lookup_optionalMember]
    simp [ofParts?, htype, typeName, hlevel]

theorem writable_members {levels : Nat} (v : Visibility) : ∀ m ∈ v.members, m.2.Writable levels := by
  cases v with
  | hidden => simpa [members] using Value.writable_ofText "hidden"
  | testOnly => simpa [members] using Value.writable_ofText "test_only"
  | conditional level =>
    exact List.forall_mem_cons.2
      ⟨Value.writable_ofText "conditional", forall_optionalMember Value.writable_ofWord⟩

theorem writable_toJson {levels : Nat} (v : Visibility) : v.toJson.Writable (levels + 1) :=
  Value.writable_ofMembers v.writable_members

end Visibility

namespace Payload

/-- The names of the members that payloads have. -/
def fieldNames : List String := ["kind", "replacement", "since", "visibility", "level", "version"]

theorem names_members (p : Payload) : (p.members.map Prod.fst).Sublist fieldNames := by
  cases p with
  | deprecated replacement =>
    exact .cons_cons _ ((names_optionalMember _ _ replacement).trans (by decide))
  | removed level => exact .cons_cons _ ((names_optionalMember _ _ level).trans (by decide))
  | restrictedVisibility v => exact (by decide : List.Sublist ["kind", "visibility"] fieldNames)
  | minApiLevel level => exact (by decide : List.Sublist ["kind", "level"] fieldNames)
  | maxApiLevel level => exact (by decide : List.Sublist ["kind", "level"] fieldNames)
  | sinceVersion version => exact (by decide : List.Sublist ["kind", "version"] fieldNames)

section
variable {ms : List (String × Value)} {p : Payload} (hn : (ms.map Prod.fst).Nodup)
  (h : ∀ name ∈ fieldNames, ms.lookup name = p.members.lookup name)
include hn h

/-- Members of other names do not count for the payload. -/
theorem ofParts?_of_lookup (byNumber : Bool) : ofParts? byNumber (.ofMembers ms) = some p := by
  have hget : ∀ name ∈ fieldNames, ∀ place,
      (Parts.ofMembers ms).get? name place = some (p.members.lookup name) := by
    intro name hm place
    rw [Parts.get?_ofMembers hn, h name hm]
  have hkind : (Parts.ofMembers ms).required "kind" 0 (alternative? kindNames byNumber) =
      some p.kind.name := Parts.required_eq_some (hget _ (by decide) 0) rfl
  cases p with
  | deprecated replacement =>
    have hr : (Parts.ofMembers ms).optional "replacement" 1 Value.text? = some replacement := by
      refine Parts.optional_eq_some Value.text?_ofText Value.ofText_ne_null ((hget _ (by decide) 1).trans ?_)
      simp [members, Sequences.lookup_cons_eq, lookup_optionalMember]
    simp [ofParts?, hkind, kind, Kind.name, hr]
  | removed level =>
    have hr : (Parts.ofMembers ms).optional "since" 1 Value.word? = some level := by
      refine Parts.optional_eq_some Value.word?_ofWord Value.ofWord_ne_null ((hget _ (by decide) 1).trans ?_)
      simp [members, Sequences.lookup_cons_eq, lookup_optionalMember]
    simp [ofParts?, hkind, kind, Kind.name, hr]
  | restrictedVisibility v =>
    have hr := Parts.required_eq_some (hget "visibility" (by decide) 1) v.ofJson?_toJson
    simp [ofParts?, hkind, kind, Kind.name, hr]
  | minApiLevel level =>
    have hr := Parts.required_eq_some (hget "level" (by decide) 1) (Value.word?_ofWord level)
    simp [ofParts?, hkind, kind, Kind.name, hr]
  | maxApiLevel level =>
    have hr := Parts.required_eq_some (hget "level" (by decide) 1) (Value.word?_ofWord level)
    simp [ofParts?, hkind, kind, Kind.name, hr]
  | sinceVersion version =>
    have hr := Parts.required_eq_some (hget "version" (by decide) 1) (Value.text?_ofText version)
    simp [ofParts?, hkind, kind, Kind.name, hr]

end

theorem writable_members {levels : Nat} (p : Payload) : ∀ m ∈ p.members, m.2.Writable (levels + 1) := by
  refine List.forall_mem_cons.2 ⟨Value.writable_ofText p.kind.name, ?_⟩
  cases p with
  | deprecated replacement => exact forall_optionalMember Value.writable_ofText
  | removed level => exact forall_optionalMember Value.writable_ofWord
  | restrictedVisibility v => simpa using v.writable_toJson
  | minApiLevel level => simpa using Value.writable_ofWord level
  | maxApiLevel level => simpa using Value.writable_ofWord level
  | sinceVersion version => simpa using Value.writable_ofText version

theorem writable_toJson {levels : Nat} (p : Payload) : p.toJson.Writable (levels + 2) :=
  Value.writable_ofMembers p.writable_members

theorem parse?_text (p : Payload) : parse? p.toJson.text = some p := by
  have hw : p.toJson.Writable nestingLimit := p.writable_toJson
  have hparts := ofParts?_of_lookup (p.names_members.nodup (by decide)) (fun _ _ => rfl) false
  have hvalue : Parts.ofValue? p.toJson = some (.ofMembers p.members) := Parts.ofValue?_ofMembers p.members
  rw [parse?, Value.parse?_text hw.wellFormed]
  simp [ofJson?, hw.isSound, hvalue, hparts]

end Payload

end ApiRules
