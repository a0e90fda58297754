import ApiRules.Json.Reader
import ApiRules.Proofs.Json.Token

/-!
A value is read back from its text.
-/
namespace ApiRules.Json

namespace Reader

/-- The value whose tokens go on like this. -/
def run (r : Reader) (ts : List Token) : Option Value := ts.foldlM step r >>= finish

theorem run_cons (r : Reader) (t : Token) (ts : List Token) :
    r.run (t :: ts) = (r.step t).bind (run · ts) := by
  rw [run, List.foldlM_cons, bind_assoc]
  rfl

/-- Its tokens deliver the value to the container that is open. -/
def Delivers (v : Value) : Prop := ∀ stack rest,
  run ⟨stack, .value⟩ (v.tokens ++ rest) = (deliver v stack).bind (run · rest)

variable {stack : List Frame} {rest : List Token}

/-- No value starts with the bracket that ends an array. -/
theorem run_firstItem (v : Value) (stack : List Frame) (rest : List Token) :
    run ⟨stack, .firstItem⟩ (v.tokens ++ rest) = run ⟨stack, .value⟩ (v.tokens ++ rest) := by
  cases v <;> rfl

theorem run_moreItemTokens {vs : List Value} (h : ∀ v ∈ vs, Delivers v) (done : List Value) :
    run ⟨.array done :: stack, .next⟩ (Value.moreItemTokens vs ++ rest) =
      (deliver (.array (done.reverse ++ vs)) stack).bind (run · rest) := by
  induction vs generalizing done with
  | nil =>
    rw [List.append_nil]
    exact run_cons _ _ _
  | cons v vs ih =>
    obtain ⟨hv, hvs⟩ := List.forall_mem_cons.1 h
    have hcomma : run ⟨.array done :: stack, .next⟩ (Value.moreItemTokens (v :: vs) ++ rest) =
        run ⟨.array done :: stack, .value⟩ (v.tokens ++ (Value.moreItemTokens vs ++ rest)) := by
      rw [Value.moreItemTokens, List.cons_append, List.append_assoc, run_cons]
      rfl
    rw [hcomma, hv, deliver, Option.bind_some, ih hvs]
    simp

theorem run_itemTokens {vs : List Value} (h : ∀ v ∈ vs, Delivers v) :
    run ⟨.array [] :: stack, .firstItem⟩ (Value.itemTokens vs ++ rest) =
      (deliver (.array vs) stack).bind (run · rest) := by
  cases vs with
  | nil => exact run_cons _ _ _
  | cons v vs =>
    obtain ⟨hv, hvs⟩ := List.forall_mem_cons.1 h
    rw [Value.itemTokens, List.append_assoc, run_firstItem, hv, deliver, Option.bind_some,
      run_moreItemTokens hvs]
    rfl

theorem run_key {e : Expected} (he : e = .key ∨ e = .firstKey) (members : List (Literal × Value))
    (k : Literal) (ts : List Token) :
    run ⟨.object members :: stack, e⟩ (.atom (.string k) :: .colon :: ts) =
      run ⟨.member members k :: stack, .value⟩ ts := by
  obtain rfl | rfl := he <;> rfl

theorem run_moreMemberTokens {ms : List (Literal × Value)} (h : ∀ m ∈ ms, Delivers m.2)
    (done : List (Literal × Value)) :
    run ⟨.object done :: stack, .next⟩ (Value.moreMemberTokens ms ++ rest) =
      (deliver (.object (done.reverse ++ ms)) stack).bind (run · rest) := by
  induction ms generalizing done with
  | nil =>
    rw [List.append_nil]
    exact run_cons _ _ _
  | cons m ms ih =>
    obtain ⟨k, v⟩ := m
    obtain ⟨hv, hms⟩ := List.forall_mem_cons.1 h
    have hcomma : run ⟨.object done :: stack, .next⟩ (Value.moreMemberTokens ((k, v) :: ms) ++ rest) =
        run ⟨.object done :: stack, .key⟩
          (.atom (.string k) :: .colon :: (v.tokens ++ (Value.moreMemberTokens ms ++ rest))) := by
      rw [Value.moreMemberTokens, List.cons_append, List.cons_append, List.cons_append,
        List.append_assoc, run_cons]
      rfl
    rw [hcomma, run_key (.inl rfl), hv, deliver, Option.bind_some, ih hms]
    simp

theorem run_memberTokens {ms : List (Literal × Value)} (h : ∀ m ∈ ms, Delivers m.2) :
    run ⟨.object [] :: stack, .firstKey⟩ (Value.memberTokens ms ++ rest) =
      (deliver (.object ms) stack).bind (run · rest) := by
  rcases ms with _ | ⟨⟨k, v⟩, ms⟩
  · exact run_cons _ _ _
  · obtain ⟨hv, hms⟩ := List.forall_mem_cons.1 h
    rw [Value.memberTokens, List.cons_append, List.cons_append, List.append_assoc, run_key (.inr rfl),
      hv, deliver, Option.bind_some, run_moreMemberTokens hms]
    rfl

theorem delivers (v : Value) : Delivers v := by
  induction v using Value.induction with
  | null => exact fun stack rest => run_cons _ _ _
  | bool b => exact fun stack rest => run_cons _ _ _
  | number n => exact fun stack rest => run_cons _ _ _
  | string s => exact fun stack rest => run_cons _ _ _
  | array items ih =>
    intro stack rest
    rw [Value.tokens, List.cons_append, run_cons]
    exact run_itemTokens ih
  | object members ih =>
    intro stack rest
    rw [Value.tokens, List.cons_append, run_cons]
    exact run_memberTokens ih

end Reader

namespace Value

theorem ofTokens?_tokens (v : Value) : ofTokens? v.tokens = some v := by
  have h := Reader.delivers v [] []
  rw [List.append_nil] at h
  exact h

/-- A value is read back from its text. -/
theorem parse?_text {v : Value} (h : v.WellFormed) : parse? v.text = some v := by
  rw [parse?, text, String.toList_ofList, tokens?_chars h]
  exact ofTokens?_tokens v

end Value

end ApiRules.Json
