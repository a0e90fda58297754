import ApiRules.Json.Value
import ApiRules.Proofs.Json.Number

/-!
Values that a text can spell, and the soundness of the values that are written.
-/
namespace ApiRules.Json.Value

/-- What holds of a container if it holds of all that stands in it holds of every value. -/
theorem induction {P : Value → Prop} (null : P null) (bool : ∀ b, P (bool b)) (number : ∀ n, P (number n))
    (string : ∀ s, P (string s)) (array : ∀ items, (∀ v ∈ items, P v) → P (array items))
    (object : ∀ members, (∀ m ∈ members, P (Prod.snd m)) → P (object members)) (v : Value) : P v :=
  @Value.rec P (fun vs => ∀ v ∈ vs, P v) (fun ms => ∀ m ∈ ms, P m.2) (fun m => P m.2)
    null bool number string array object
    (fun _ h => absurd h List.not_mem_nil) (fun _ _ hv hvs => List.forall_mem_cons.2 ⟨hv, hvs⟩)
    (fun _ h => absurd h List.not_mem_nil) (fun _ _ hm hms => List.forall_mem_cons.2 ⟨hm, hms⟩)
    (fun _ _ hv => hv) v

/-- Every number in the value is one that a text can spell. -/
inductive WellFormed : Value → Prop
  | null : WellFormed .null
  | bool (b : Bool) : WellFormed (.bool b)
  | number {n : Number} (h : n.WellFormed) : WellFormed (.number n)
  | string (s : Literal) : WellFormed (.string s)
  | array {items : List Value} (h : ∀ v ∈ items, WellFormed v) : WellFormed (.array items)
  | object {members : List (Literal × Value)} (h : ∀ m ∈ members, WellFormed m.2) :
    WellFormed (.object members)

/-- The value is read back from its text, and its containers stand in one another `levels` deep at
most. -/
structure Writable (levels : Nat) (v : Value) : Prop where
  wellFormed : v.WellFormed
  isSound : v.isSound levels = true

theorem areSound_iff {levels : Nat} {vs : List Value} :
    areSound levels vs = true ↔ ∀ v ∈ vs, v.isSound levels = true := by
  induction vs with
  | nil => simp [areSound]
  | cons v vs ih => simp [areSound, ih]

theorem membersAreSound_iff {levels : Nat} {ms : List (Literal × Value)} :
    membersAreSound levels ms = true ↔ ∀ m ∈ ms, m.1.isSome = true ∧ m.2.isSound levels = true := by
  induction ms with
  | nil => simp [membersAreSound]
  | cons m ms ih => simp [membersAreSound, ih, and_assoc]

variable {levels : Nat}

theorem writable_bool (b : Bool) : Writable levels (.bool b) := ⟨.bool b, by simp [isSound]⟩

theorem writable_ofText (s : String) : Writable levels (ofText s) := ⟨.string s, by simp [ofText, isSound]⟩

theorem writable_ofNat {n : Nat} (h : n < wordCount 53) : Writable levels (ofNat n) :=
  ⟨.number (Number.wellFormed_ofNat n), by simp [ofNat, isSound, Number.overflows_ofNat h]⟩

theorem writable_array {vs : List Value} (h : ∀ v ∈ vs, Writable levels v) :
    Writable (levels + 1) (.array vs) := by
  constructor
  · exact .array fun v hv => (h v hv).wellFormed
  · rw [isSound, areSound_iff]
    exact fun v hv => (h v hv).isSound

theorem writable_ofMembers {ms : List (String × Value)} (h : ∀ m ∈ ms, Writable levels m.2) :
    Writable (levels + 1) (ofMembers ms) := by
  constructor
  · refine .object fun m hm => ?_
    obtain ⟨m', hm', rfl⟩ := List.mem_map.1 hm
    exact (h m' hm').wellFormed
  · rw [ofMembers, isSound, membersAreSound_iff]
    rintro m hm
    obtain ⟨m', hm', rfl⟩ := List.mem_map.1 hm
    exact ⟨rfl, (h m' hm').isSound⟩

end ApiRules.Json.Value
