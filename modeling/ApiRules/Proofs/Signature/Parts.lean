import ApiRules.Proofs.Signature.Brackets

/-!
A signature is read part by part. Once its marks are known to be the first `#`, the first `(` and the last `)`,
the text of each part is read by itself.
-/
namespace ApiRules

open Text

namespace MemberName

theorem parse_congr {cs ds : List Char} (h : trim cs = trim ds) : parse cs = parse ds := by
  rw [parse, parse]
  simp only [h]

theorem parse_eq_ok_iff {cs : List Char} {n : MemberName} : parse cs = .ok n ↔ trim cs = n.chars := by
  constructor
  · intro h
    rw [parse] at h
    split at h
    · rw [← Except.ok.inj h]
    · cases h
  · intro h
    rw [← parse_chars n, ← h]
    apply parse_congr
    rw [h, trim_eq_self fun c hc => not_blank hc]

theorem paren_not_mem_of_parse {cs : List Char} {n : MemberName} (h : parse cs = .ok n) : '(' ∉ cs := by
  intro hm
  have ht := mem_trim hm (by decide)
  rw [parse_eq_ok_iff.1 h] at ht
  exact not_mem_chars (by decide) ht

end MemberName

/-- The part of a method after the number sign: a name, what stands in the parentheses and what follows
them. -/
def methodChars (name inner tail : List Char) : List Char := name ++ '(' :: (inner ++ ')' :: tail)

/-- The parameters that these two texts of the signature `whole` spell. -/
def readParams (inner tail whole : List Char) : Except SignatureError (List TypeName) :=
  if isBlankText tail then do (← sourceParams inner whole).mapM TypeName.parse
  else Descriptor.params inner (trim tail)

/-- The texts of the parameters are told apart again where they are joined by commas. -/
theorem readParams_joinWith {params : List (List Char)} {ts : List TypeName} {tail : List Char}
    (h : params.mapM TypeName.parse = .ok ts) (ht : isBlankText tail = true) (whole : List Char) :
    readParams (joinWith ',' params) tail whole = .ok ts := by
  have hparts : ∀ p ∈ params, splitParams? 0 p = some [p] ∧ isBlankText p = false := by
    intro p hp
    obtain ⟨t, -, hparse⟩ := Sequences.exists_of_forall₂ (mapM_eq_ok_iff.1 h).flip hp
    exact ⟨TypeName.splitParams?_of_parse hparse, TypeName.isBlankText_of_parse hparse⟩
  rw [readParams, if_pos ht, sourceParams_joinWith hparts]
  exact h

theorem readParams_chars (ts : List TypeName) (whole : List Char) :
    readParams (joinWith ',' (ts.map TypeName.chars)) [] whole = .ok ts :=
  readParams_joinWith (TypeName.mapM_parse_chars ts) rfl whole

section
variable {owner name inner tail whole cs : List Char}

theorem Member.parse_trim_field (hn : '(' ∉ name) :
    Member.parse (trim name) whole = do return .field (← MemberName.parse name) := by
  have hc : cut? '(' (trim name) = none := cut?_eq_none fun hm => hn (mem_of_mem_trim hm)
  simp only [Member.parse, hc, MemberName.parse_congr (trim_trim name)]

theorem Member.parse_methodChars (hn : '(' ∉ name) (ht : ')' ∉ tail) :
    Member.parse (methodChars name inner tail) whole = do
      let n ← MemberName.parse name
      return .method n (← readParams inner tail whole) := by
  have hc : cut? '(' (methodChars name inner tail) = some (name, inner ++ ')' :: tail) := cut?_append hn
  have hl : cutLast? ')' (inner ++ ')' :: tail) = some (inner, tail) := cutLast?_append ht
  simp only [Member.parse, hc, hl, readParams]
  split <;> simp

theorem Member.parse_trim_method (hn : '(' ∉ name) (ht : ')' ∉ tail) :
    Member.parse (trim (methodChars name inner tail)) whole = do
      let n ← MemberName.parse name
      return .method n (← readParams inner tail whole) := by
  have htrim : trim (methodChars name inner tail) = methodChars (trimLeft name) inner (trimRight tail) := by
    rw [methodChars, trim_append_cons rfl, trimRight_append_cons rfl, methodChars]
  have hread : readParams inner (trimRight tail) whole = readParams inner tail whole := by
    rw [readParams, readParams, isBlankText_trimRight, trim_trimRight]
  rw [htrim, Member.parse_methodChars (fun hm => hn (mem_of_mem_trimLeft hm))
    (fun hm => ht (mem_of_mem_trimRight hm)), MemberName.parse_congr (trim_trimLeft name), hread]

namespace Signature

theorem ofChars_member (ho : '#' ∉ owner) : ofChars (owner ++ '#' :: cs) = do
    let o ← Owner.parse owner
    return ⟨o, some (← Member.parse (trim cs) (trim (owner ++ '#' :: cs)))⟩ := by
  have htrim : trim (owner ++ '#' :: cs) = trimLeft owner ++ '#' :: trimRight cs := trim_append_cons rfl
  have hne : trim (owner ++ '#' :: cs) ≠ [] := by simp [htrim]
  have hc : cut? '#' (trim (owner ++ '#' :: cs)) = some (trimLeft owner, trimRight cs) := by
    rw [htrim]
    exact cut?_append fun hm => ho (mem_of_mem_trimLeft hm)
  simp only [ofChars, hne, if_false, hc, Owner.parse_trimLeft, trim_trimRight]

variable {o : Owner} {n : MemberName}

theorem ofChars_class (h : Owner.parse cs = .ok o) : ofChars cs = .ok ⟨o, none⟩ := by
  have hne : trim cs ≠ [] := by
    intro hnil
    have hempty : Owner.parse cs = Owner.parse [] := Owner.parse_congr hnil
    rw [hempty] at h
    cases h
  have hc : cut? '#' (trim cs) = none :=
    cut?_eq_none fun hm => Owner.hash_not_mem_of_parse h (mem_of_mem_trim hm)
  simp only [ofChars, hne, if_false, hc, Owner.parse_congr (trim_trim cs), h]
  rfl

theorem ofChars_field (ho : Owner.parse owner = .ok o) (hn : MemberName.parse name = .ok n) :
    ofChars (owner ++ '#' :: name) = .ok ⟨o, some (.field n)⟩ := by
  rw [ofChars_member (Owner.hash_not_mem_of_parse ho), ho,
    Member.parse_trim_field (MemberName.paren_not_mem_of_parse hn), hn]
  rfl

theorem ofChars_method (ho : Owner.parse owner = .ok o) (hn : MemberName.parse name = .ok n) (ht : ')' ∉ tail) :
    ofChars (owner ++ '#' :: methodChars name inner tail) =
      (fun ts => ⟨o, some (.method n ts)⟩) <$>
        readParams inner tail (trim (owner ++ '#' :: methodChars name inner tail)) := by
  rw [ofChars_member (Owner.hash_not_mem_of_parse ho), ho,
    Member.parse_trim_method (MemberName.paren_not_mem_of_parse hn) ht, hn]
  cases readParams inner tail (trim (owner ++ '#' :: methodChars name inner tail)) <;> rfl

end Signature

end

end ApiRules
