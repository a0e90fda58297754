import ApiRules.Proofs.Signature.Parts

/-!
Signatures that are made of parts. Read from one text, with the marks between the parts, they are the same, whatever
the texts of the parts are. So is a member that is moved to another owner.
-/
namespace ApiRules.Signature

open Text

variable {owner name : String} {params : List String} {s : Signature}

theorem parse_of_ofClass (h : ofClass owner = .ok s) : parse owner = .ok s := by
  obtain ⟨o, ho, hs⟩ := map_eq_ok_iff.1 h
  rw [hs, parse, ofChars_class ho]

theorem parse_of_ofField (h : ofField owner name = .ok s) : parse (owner ++ "#" ++ name) = .ok s := by
  obtain ⟨o, ho, h⟩ := bind_eq_ok_iff.1 h
  obtain ⟨n, hn, hs⟩ := map_eq_ok_iff.1 h
  have hchars : (owner ++ "#" ++ name).toList = owner.toList ++ '#' :: name.toList := by simp
  rw [hs, parse, hchars, ofChars_field ho hn]

theorem parse_of_ofMethod (h : ofMethod owner name params = .ok s) :
    parse (owner ++ "#" ++ name ++ "(" ++ String.intercalate "," params ++ ")") = .ok s := by
  obtain ⟨ts, hts, h⟩ := bind_eq_ok_iff.1 h
  obtain ⟨o, ho, h⟩ := bind_eq_ok_iff.1 h
  obtain ⟨n, hn, hs⟩ := map_eq_ok_iff.1 h
  have hjoin : (String.intercalate "," params).toList = joinWith ',' (params.map String.toList) := by
    rw [String.toList_intercalate]
    exact (joinWith_eq_intercalate ',' _).symm
  have hchars : (owner ++ "#" ++ name ++ "(" ++ String.intercalate "," params ++ ")").toList =
      owner.toList ++ '#' :: methodChars name.toList (joinWith ',' (params.map String.toList)) [] := by
    simp [methodChars, hjoin]
  have hread : (params.map String.toList).mapM TypeName.parse = .ok ts := by
    rwa [List.mapM_map]
  rw [hs, parse, hchars, ofChars_method ho hn List.not_mem_nil, readParams_joinWith hread rfl]
  rfl

/-- What the canonical spelling has behind the owner. -/
def memberText (s : Signature) : String :=
  match s.member with
  | none => ""
  | some m => "#" ++ String.ofList m.chars

theorem text_eq_append (s : Signature) : s.text = s.owner.text ++ s.memberText := by
  obtain ⟨o, member⟩ := s
  cases member with
  | none => exact String.append_empty.symm
  | some m => simp [text, chars, memberText, Owner.text]

/-- Behind any spelling of an owner, what a canonical spelling has behind its owner spells the same member. -/
theorem parse_append_memberText {other : String} {o : Owner} (h : Owner.parse other.toList = .ok o) (s : Signature) :
    parse (other ++ s.memberText) = .ok ⟨o, s.member⟩ := by
  obtain ⟨o', member⟩ := s
  cases member with
  | none =>
    have hchars : (other ++ memberText ⟨o', none⟩).toList = other.toList := by simp [memberText]
    rw [parse, hchars, ofChars_class h]
  | some m =>
    have hchars : (other ++ memberText ⟨o', some m⟩).toList = other.toList ++ '#' :: m.chars := by simp [memberText]
    have hm : trim m.chars = m.chars := trim_eq_self fun c hc => Member.not_blank hc
    rw [parse, hchars, ofChars_member (Owner.hash_not_mem_of_parse h), h, hm, Member.parse_chars]
    rfl

theorem withOwner_eq_ok {other : String} {o : Owner} (h : Owner.parse other.toList = .ok o) (s : Signature) :
    s.withOwner other = .ok ⟨o, s.member⟩ := by
  rw [withOwner, h]
  rfl

/-- A class, a field or a method that is made of its parts is read from them as well, written with the marks between
them. The method keeps its parameters, whatever white space, dots and generic arguments they are written with. A
signature that is moved to another owner is read from the text of this owner and what its canonical spelling has
behind its own. -/
theorem parts_read_together (owner name : String) (params : List String) :
    (∀ s, ofClass owner = .ok s → parse owner = .ok s) ∧
    (∀ s, ofField owner name = .ok s → parse (owner ++ "#" ++ name) = .ok s) ∧
    (∀ s, ofMethod owner name params = .ok s →
      parse (owner ++ "#" ++ name ++ "(" ++ String.intercalate "," params ++ ")") = .ok s) ∧
    ∀ s : Signature, ∃ part, s.text = s.owner.text ++ part ∧
      ∀ other o, Owner.parse other.toList = .ok o →
        s.withOwner other = .ok ⟨o, s.member⟩ ∧ s.withOwner other = parse (other ++ part) := by
  refine ⟨fun s => parse_of_ofClass, fun s => parse_of_ofField, fun s => parse_of_ofMethod, fun s => ?_⟩
  refine ⟨s.memberText, s.text_eq_append, fun other o ho => ?_⟩
  have hmoved := withOwner_eq_ok ho s
  exact ⟨hmoved, hmoved.trans (parse_append_memberText ho s).symm⟩

/-- A constructor with a comma, parentheses and a number sign in generic arguments, three dots behind a blank, and
brackets with a blank between them. -/
theorem parts_of_generic_constructor_read_together :
    let parameters := ["Map<K, V<(#)>> ...", " int [ ]"]
    ∃ s, ofMethod " La$B; " " <init> " parameters = .ok s ∧ s.text = "a.B#<init>(Map[],int[])" ∧
      parse " La$B; # <init> (Map<K, V<(#)>> ..., int [ ])" = .ok s ∧
      s.withOwner "c/D" = parse "c/D#<init>(Map[],int[])" := by
  intro parameters
  obtain ⟨-, -, hmethod, hmoved⟩ := parts_read_together " La$B; " " <init> " parameters
  let o : Owner := ⟨[⟨['a'], by decide⟩, ⟨['B'], by decide⟩], List.cons_ne_nil _ _⟩
  let s : Signature := ⟨o, some (.method ⟨['<', 'i', 'n', 'i', 't', '>'], by decide⟩
    [⟨.ofName "Map", 1⟩, ⟨.ofName "int", 1⟩])⟩
  have hs : ofMethod " La$B; " " <init> " parameters = .ok s := rfl
  obtain ⟨part, hpart, hother⟩ := hmoved s
  have htext : s.text = s.owner.text ++ "#<init>(Map[],int[])" := rfl
  obtain rfl := (String.append_right_inj _).1 (hpart.symm.trans htext)
  refine ⟨s, hs, rfl, hmethod s hs, ?_⟩
  have hd : Owner.parse "c/D".toList = .ok ⟨[⟨['c'], by decide⟩, ⟨['D'], by decide⟩], List.cons_ne_nil _ _⟩ := rfl
  exact (hother "c/D" _ hd).2

end ApiRules.Signature
