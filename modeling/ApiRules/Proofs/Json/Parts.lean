import ApiRules.Json.Parts
import ApiRules.Proofs.Json.Value
import ApiRules.Proofs.Sequences

/-!
Fields are read back from the members that they are written as.
-/
namespace ApiRules.Json

namespace Value

theorem text?_ofText (s : String) : text? (ofText s) = some s := rfl

theorem bool?_bool (b : Bool) : bool? (.bool b) = some b := rfl

theorem ofText_ne_null (s : String) : ofText s ≠ null := nofun

theorem ofWord_ne_null (n : UInt32) : ofWord n ≠ null := nofun

theorem word?_ofWord (n : UInt32) : word? (ofWord n) = some n := by
  have hn : n.toNat < wordCount 32 := n.toNat_lt
  simp [word?, ofWord, ofNat, nat?, Number.toNat?_ofNat, hn]

theorem writable_ofWord {levels : Nat} (n : UInt32) : Writable levels (ofWord n) :=
  writable_ofNat (n.toNat_lt.trans (by decide))

variable {α : Type} {read? : Value → Option α} {write : α → Value}

theorem list?_map {as : List α} (h : ∀ a ∈ as, read? (write a) = some a) :
    list? read? (array (as.map write)) = some as := Sequences.mapM_map_eq_some h

theorem writable_map {levels : Nat} {as : List α} (h : ∀ a ∈ as, Writable levels (write a)) :
    Writable (levels + 1) (array (as.map write)) :=
  writable_array (List.forall_mem_map.2 h)

end Value

theorem lookup_optionalMember {α : Type} (name : String) (write : α → Value) (a : Option α) (k : String) :
    (optionalMember name write a).lookup k = if k = name then a.map write else none := by
  cases a with
  | none => simp [optionalMember]
  | some a => exact Sequences.lookup_cons_eq (name, write a) [] k

theorem names_optionalMember {α : Type} (name : String) (write : α → Value) (a : Option α) :
    ((optionalMember name write a).map Prod.fst).Sublist [name] := by
  cases a with
  | none => exact List.nil_sublist _
  | some a => exact List.Sublist.refl _

theorem forall_optionalMember {α : Type} {name : String} {write : α → Value} {a : Option α}
    {p : Value → Prop} (h : ∀ a, p (write a)) : ∀ m ∈ optionalMember name write a, p m.2 := by
  cases a with
  | none => exact nofun
  | some a => simpa [optionalMember] using h a

namespace Parts

/-- The parts of the object with these members. -/
def ofMembers (ms : List (String × Value)) : Parts := named (ms.map fun (k, v) => (some k, v))

theorem ofObject?_ofMembers (ms : List (String × Value)) :
    ofObject? (.ofMembers ms) = some (ofMembers ms) := by
  simp [ofObject?, Value.ofMembers, ofMembers]

theorem ofValue?_ofMembers (ms : List (String × Value)) :
    ofValue? (.ofMembers ms) = some (ofMembers ms) := ofObject?_ofMembers ms

@[simp] theorem fits_ofMembers (ms : List (String × Value)) (n : Nat) : (ofMembers ms).fits n = true := rfl

theorem filter_ofMembers {ms : List (String × Value)} (h : (ms.map Prod.fst).Nodup) (name : String) :
    ((ms.map fun (k, v) => ((some k, v) : Literal × Value)).filter fun (k, _) => k == some name) =
      ((ms.lookup name).map fun v => ((some name, v) : Literal × Value)).toList := by
  induction ms with
  | nil => rfl
  | cons m ms ih =>
    obtain ⟨k, v⟩ := m
    obtain ⟨hk, hms⟩ := List.nodup_cons.1 h
    have ih := ih hms
    rw [List.map_cons, List.filter_cons, Sequences.lookup_cons_eq]
    by_cases hn : name = k
    · subst hn
      rw [Sequences.lookup_eq_none hk] at ih
      rw [ih, if_pos (beq_self_eq_true _), if_pos rfl]
      rfl
    · have hne : k ≠ name := fun he => hn he.symm
      simpa [hn, hne] using ih

/-- A field is the member of its name, wherever it stands. -/
theorem get?_ofMembers {ms : List (String × Value)} (h : (ms.map Prod.fst).Nodup) (name : String)
    (place : Nat) : (ofMembers ms).get? name place = some (ms.lookup name) := by
  have hf := filter_ofMembers h name
  simp only [ofMembers, get?, hf]
  cases ms.lookup name <;> rfl

variable {α : Type} {parts : Parts} {name : String} {place : Nat} {read? : Value → Option α} {a : α}
  {v : Value}

theorem required_eq_some (h : parts.get? name place = some (some v)) (hv : read? v = some a) :
    parts.required name place read? = some a := by
  simp [required, h, hv]

theorem orElse_eq_some (missing : α) (h : parts.get? name place = some (some v)) (hv : read? v = some a) :
    parts.orElse name place missing read? = some a := by
  simp [orElse, h, hv]

theorem optional_eq_some {write : α → Value} {a : Option α} (hread : ∀ a, read? (write a) = some a)
    (hnull : ∀ a, write a ≠ .null) (h : parts.get? name place = some (a.map write)) :
    parts.optional name place read? = some a := by
  cases a with
  | none => simp [optional, h]
  | some a =>
    simp only [optional, h, Option.map_some, Option.bind_eq_bind, Option.bind_some]
    split
    · rename_i hv
      cases hv
    · rename_i hv
      exact absurd (Option.some.inj hv) (hnull a)
    · rename_i hv
      cases hv
      rw [hread]
      rfl

end Parts

end ApiRules.Json
