import ApiRules.Json.Token
import ApiRules.Json.Writer
import ApiRules.Proofs.Json.Value

/-!
The tokens of a text that a value is written as.
-/
namespace ApiRules.Json

theorem pairSurrogates?_toNat (cs : List Char) : pairSurrogates? (cs.map Char.toNat) = some cs := by
  induction cs with
  | nil => rfl
  | cons c cs ih =>
    have hc : c.toNat < 0xD800 ∨ 0xDFFF < c.toNat ∧ c.toNat < 0x110000 := c.valid
    have hhigh : ¬(0xD800 ≤ c.toNat ∧ c.toNat < 0xDC00) := by omega
    have hlow : ¬(0xDC00 ≤ c.toNat ∧ c.toNat < 0xE000) := by omega
    rw [List.map_cons, pairSurrogates?.eq_def]
    simp [hhigh, hlow, ih]

theorem hexDigit?_lowerHexDigit (n : Nat) : Text.hexDigit? (lowerHexDigit n) = some (n % 16) := by
  have h : ∀ d < 16, Text.hexDigit? (Nat.digitChar d) = some d := by decide
  exact h (n % 16) (Nat.mod_lt n (by decide))

namespace Lexer

/-- The tokens of a text whose first part is already read. -/
def run (l : Lexer) (cs : List Char) : Option (List Token) := cs.foldlM step l >>= finish

theorem run_cons (l : Lexer) (c : Char) (cs : List Char) : l.run (c :: cs) = (l.step c).bind (run · cs) := by
  rw [run, List.foldlM_cons, bind_assoc]
  rfl

/-- What may stand after a value. -/
def Delimited (rest : List Char) : Prop := ∀ c ∈ rest.head?, c = ',' ∨ c = ']' ∨ c = '}'

variable {ts : List Token} {rest : List Char}

theorem run_punctuation {c : Char} {t : Token} (h : punctuation? c = some t) :
    run ⟨ts, .between⟩ (c :: rest) = run ⟨t :: ts, .between⟩ rest := by
  have hs : step ⟨ts, .between⟩ c = some ⟨t :: ts, .between⟩ := by
    unfold punctuation? at h
    split at h <;> cases h <;> rfl
  rw [run_cons, hs, Option.bind_some]

/-- A delimiter ends a word, and so does the end of the text. -/
theorem run_word {done : List Char} {v : Value} (h : word? done.reverse = some v) (hr : Delimited rest) :
    run ⟨ts, .word done⟩ rest = run ⟨.atom v :: ts, .between⟩ rest := by
  cases rest with
  | nil => simp [run, finish, h]
  | cons c cs =>
    have hc : c.isLower = false := by
      obtain rfl | rfl | rfl := hr c rfl <;> rfl
    rw [run_cons, run_cons]
    simp [step, hc, h]

theorem run_number_append {cs done : List Char} (h : ∀ c ∈ cs, isNumberChar c = true) :
    run ⟨ts, .number done⟩ (cs ++ rest) = run ⟨ts, .number (cs.reverse ++ done)⟩ rest := by
  induction cs generalizing done with
  | nil => rfl
  | cons c cs ih =>
    obtain ⟨hc, hcs⟩ := List.forall_mem_cons.1 h
    rw [List.cons_append, run_cons]
    simp [step, hc, ih hcs]

theorem run_number_end {done : List Char} {n : Number} (h : Number.ofChars? done.reverse = some n)
    (hr : Delimited rest) :
    run ⟨ts, .number done⟩ rest = run ⟨.atom (.number n) :: ts, .between⟩ rest := by
  cases rest with
  | nil => simp [run, finish, h]
  | cons c cs =>
    have hc : isNumberChar c = false := by
      obtain rfl | rfl | rfl := hr c rfl <;> rfl
    rw [run_cons, run_cons]
    simp [step, hc, h]

theorem run_hex {n : Nat} (h : n < 0x100) (done : List Nat) :
    run ⟨ts, .string done⟩ (['\\', 'u', '0', '0', lowerHexDigit (n / 16), lowerHexDigit n] ++ rest) =
      run ⟨ts, .string (n :: done)⟩ rest := by
  have hn : 16 * (n / 16 % 16) + n % 16 = n := by omega
  have hzeros : ∀ cs, run ⟨ts, .string done⟩ ('\\' :: 'u' :: '0' :: '0' :: cs) =
    run ⟨ts, .hex done 2 0⟩ cs := fun _ => rfl
  simp only [List.cons_append, List.nil_append, hzeros, run_cons]
  simp [step, hexDigit?_lowerHexDigit, hn]

theorem run_escapeChar (c : Char) (done : List Nat) :
    run ⟨ts, .string done⟩ (escapeChar c ++ rest) = run ⟨ts, .string (c.toNat :: done)⟩ rest := by
  by_cases hq : c = '"'
  · rw [hq]
    rfl
  by_cases hb : c = '\\'
  · rw [hb]
    rfl
  unfold escapeChar
  rw [if_neg hq, if_neg hb]
  split_ifs with h8 hc hn hr ht hlow
  · rw [h8]
    rfl
  · rw [hc]
    rfl
  · rw [hn]
    rfl
  · rw [hr]
    rfl
  · rw [ht]
    rfl
  · exact run_hex (by omega) done
  · rw [List.singleton_append, run_cons]
    simp [step, hq, hb, hlow]

theorem run_escapeChars (cs : List Char) (done : List Nat) :
    run ⟨ts, .string done⟩ (cs.flatMap escapeChar ++ rest) =
      run ⟨ts, .string ((cs.map Char.toNat).reverse ++ done)⟩ rest := by
  induction cs generalizing done with
  | nil => rfl
  | cons c cs ih => simp [run_escapeChar, ih]

theorem run_quote (s : Literal) :
    run ⟨ts, .between⟩ (quote s ++ rest) = run ⟨.atom (.string s) :: ts, .between⟩ rest := by
  cases s with
  | none => rfl
  | some s =>
    have hs : (pairSurrogates? ((s.toList.map Char.toNat).reverse ++ []).reverse).map String.ofList = some s := by
      simp [pairSurrogates?_toNat]
    have hopen : run ⟨ts, .between⟩ (quote (some s) ++ rest) =
        run ⟨ts, .string []⟩ (s.toList.flatMap escapeChar ++ '"' :: rest) := by
      rw [quote, List.append_assoc]
      rfl
    have hclose : ∀ done, run ⟨ts, .string done⟩ ('"' :: rest) =
        run ⟨.atom (.string ((pairSurrogates? done.reverse).map String.ofList)) :: ts, .between⟩ rest :=
      fun _ => rfl
    rw [hopen, run_escapeChars, hclose, hs]

theorem isNumberChar_of_mem_chars {n : Number} (h : n.WellFormed) {c : Char} (hc : c ∈ n.chars) :
    isNumberChar c = true := by
  obtain hc | rfl | rfl | rfl := Number.of_mem_chars h hc
  · simp [isNumberChar, hc]
  all_goals rfl

theorem start_number {c : Char} (h : c.isDigit = true ∨ c = '-') : start ts c = some ⟨ts, .number [c]⟩ := by
  have hblank : ¬(c = ' ' ∨ c = '\n' ∨ c = '\r' ∨ c = '\t') := by
    rintro (rfl | rfl | rfl | rfl) <;> simp at h
  have hquote : c ≠ '"' := by
    rintro rfl
    simp at h
  rw [start, if_neg hblank, if_neg hquote, if_pos h]

theorem run_number {n : Number} (h : n.WellFormed) (hr : Delimited rest) :
    run ⟨ts, .between⟩ (n.chars ++ rest) = run ⟨.atom (.number n) :: ts, .between⟩ rest := by
  have hread := Number.ofChars?_chars h
  have hall : ∀ c ∈ n.chars, isNumberChar c = true := fun c => isNumberChar_of_mem_chars h
  obtain ⟨c, cs, hcs, hc⟩ := Number.exists_chars_eq_cons h
  rw [hcs] at hread hall
  have hs : step ⟨ts, .between⟩ c = some ⟨ts, .number [c]⟩ := start_number hc
  rw [hcs, List.cons_append, run_cons, hs, Option.bind_some,
    run_number_append fun d hd => hall d (List.mem_cons_of_mem c hd)]
  exact run_number_end (by simpa using hread) hr

end Lexer

namespace Value

mutual

def tokens : Value → List Token
  | null => [.atom null]
  | bool b => [.atom (bool b)]
  | number n => [.atom (number n)]
  | string s => [.atom (string s)]
  | array items => .openArray :: itemTokens items
  | object members => .openObject :: memberTokens members

def itemTokens : List Value → List Token
  | [] => [.closeArray]
  | v :: vs => v.tokens ++ moreItemTokens vs

def moreItemTokens : List Value → List Token
  | [] => [.closeArray]
  | v :: vs => .comma :: (v.tokens ++ moreItemTokens vs)

def memberTokens : List (Literal × Value) → List Token
  | [] => [.closeObject]
  | (k, v) :: ms => .atom (.string k) :: .colon :: (v.tokens ++ moreMemberTokens ms)

def moreMemberTokens : List (Literal × Value) → List Token
  | [] => [.closeObject]
  | (k, v) :: ms => .comma :: .atom (.string k) :: .colon :: (v.tokens ++ moreMemberTokens ms)

end

end Value

namespace Lexer

/-- Before a delimiter the text of the value is cut into its tokens. -/
def Cuts (v : Value) : Prop := ∀ ts rest, Delimited rest →
  run ⟨ts, .between⟩ (v.chars ++ rest) = run ⟨v.tokens.reverse ++ ts, .between⟩ rest

theorem delimited_moreItemChars (vs : List Value) : Delimited (Value.moreItemChars vs ++ rest) := by
  cases vs <;> simp [Delimited, Value.moreItemChars]

theorem delimited_moreMemberChars (ms : List (Literal × Value)) :
    Delimited (Value.moreMemberChars ms ++ rest) := by
  rcases ms with _ | ⟨⟨k, v⟩, ms⟩ <;> simp [Delimited, Value.moreMemberChars]

theorem run_moreItemChars {vs : List Value} (h : ∀ v ∈ vs, Cuts v) (ts : List Token) :
    run ⟨ts, .between⟩ (Value.moreItemChars vs ++ rest) =
      run ⟨(Value.moreItemTokens vs).reverse ++ ts, .between⟩ rest := by
  induction vs generalizing ts with
  | nil => rfl
  | cons v vs ih =>
    obtain ⟨hv, hvs⟩ := List.forall_mem_cons.1 h
    rw [Value.moreItemChars, Value.moreItemTokens, List.cons_append, List.append_assoc,
      run_punctuation rfl, hv _ _ (delimited_moreItemChars vs), ih hvs]
    simp

theorem run_itemChars {vs : List Value} (h : ∀ v ∈ vs, Cuts v) (ts : List Token) :
    run ⟨ts, .between⟩ (Value.itemChars vs ++ rest) =
      run ⟨(Value.itemTokens vs).reverse ++ ts, .between⟩ rest := by
  cases vs with
  | nil => rfl
  | cons v vs =>
    obtain ⟨hv, hvs⟩ := List.forall_mem_cons.1 h
    rw [Value.itemChars, Value.itemTokens, List.append_assoc, hv _ _ (delimited_moreItemChars vs),
      run_moreItemChars hvs]
    simp

theorem run_moreMemberChars {ms : List (Literal × Value)} (h : ∀ m ∈ ms, Cuts m.2) (ts : List Token) :
    run ⟨ts, .between⟩ (Value.moreMemberChars ms ++ rest) =
      run ⟨(Value.moreMemberTokens ms).reverse ++ ts, .between⟩ rest := by
  induction ms generalizing ts with
  | nil => rfl
  | cons m ms ih =>
    obtain ⟨k, v⟩ := m
    obtain ⟨hv, hms⟩ := List.forall_mem_cons.1 h
    rw [Value.moreMemberChars, Value.moreMemberTokens, List.cons_append, List.append_assoc,
      run_punctuation rfl, run_quote, List.cons_append, run_punctuation rfl, List.append_assoc,
      hv _ _ (delimited_moreMemberChars ms), ih hms]
    simp

theorem run_memberChars {ms : List (Literal × Value)} (h : ∀ m ∈ ms, Cuts m.2) (ts : List Token) :
    run ⟨ts, .between⟩ (Value.memberChars ms ++ rest) =
      run ⟨(Value.memberTokens ms).reverse ++ ts, .between⟩ rest := by
  rcases ms with _ | ⟨⟨k, v⟩, ms⟩
  · rfl
  · obtain ⟨hv, hms⟩ := List.forall_mem_cons.1 h
    rw [Value.memberChars, Value.memberTokens, List.append_assoc, run_quote, List.cons_append,
      run_punctuation rfl, List.append_assoc, hv _ _ (delimited_moreMemberChars ms),
      run_moreMemberChars hms]
    simp

theorem cuts {v : Value} (h : v.WellFormed) : Cuts v := by
  -- a string and a container end by themselves, so only words and numbers need the delimiter
  induction h with
  | null => exact fun ts rest hr => run_word rfl hr
  | bool b =>
    intro ts rest hr
    cases b with
    | true => exact run_word rfl hr
    | false => exact run_word rfl hr
  | number h => exact fun ts rest hr => run_number h hr
  | string s => exact fun ts rest _ => run_quote s
  | array _ ih =>
    intro ts rest _
    rw [Value.chars, Value.tokens, List.cons_append, run_punctuation rfl, run_itemChars ih]
    simp
  | object _ ih =>
    intro ts rest _
    rw [Value.chars, Value.tokens, List.cons_append, run_punctuation rfl, run_memberChars ih]
    simp

end Lexer

theorem tokens?_chars {v : Value} (h : v.WellFormed) : tokens? v.chars = some v.tokens := by
  have hc := Lexer.cuts h [] [] (by simp [Lexer.Delimited])
  simp only [List.append_nil] at hc
  exact hc.trans (by simp [Lexer.run, Lexer.finish])

end ApiRules.Json
