import ApiRules.Proofs.Signature.Parts

/-!
Source parameter lists. A list is split if and only if its brackets balance, and then the brackets of every part
balance as well. So there is one thing that can be wrong with a parameter that reading a signature comes to: what
is left of it outside brackets names no type.
-/
namespace ApiRules

open Text

variable {depth : Nat} {c : Char} {cs inner whole : List Char} {parts : List (List Char)}

/-- The list is split at the character, or the character changes the number of open brackets. -/
theorem splitParams?_cons_eq_some (hd : depth ≤ Nesting.max) (h : splitParams? (.ofNat depth) (c :: cs) = some parts) :
    (c = ',' ∧ depth = 0 ∧ ∃ rest, splitParams? (.ofNat 0) cs = some rest ∧ parts = [] :: rest) ∨
    (¬(c = ',' ∧ depth = 0) ∧ ∃ next rest, Nesting.Step Nesting.max depth c next ∧
      splitParams? (.ofNat next) cs = some rest ∧ parts = extendFirst c rest) := by
  simp only [splitParams?, Nesting.ofNat_eq_zero_iff hd] at h
  split at h
  next hcomma =>
    obtain ⟨rfl, rfl⟩ := hcomma
    obtain ⟨rest, hrest, rfl⟩ := Option.map_eq_some_iff.1 h
    exact .inl ⟨rfl, rfl, rest, hrest, rfl⟩
  next hcomma =>
    split at h
    · cases h
    next next hnext =>
      obtain ⟨next, hc, rfl⟩ := (Nesting.next?_eq_some_iff hd).1 hnext
      obtain ⟨rest, hrest, rfl⟩ := Option.map_eq_some_iff.1 h
      exact .inr ⟨hcomma, next, rest, hc, hrest, rfl⟩

theorem splitParams?_nil_eq_some (hd : depth ≤ Nesting.max) (h : splitParams? (.ofNat depth) [] = some parts) :
    depth = 0 ∧ parts = [[]] := by
  simpa [splitParams?, Nesting.ofNat_eq_zero_iff hd, eq_comm] using h

theorem closes_of_splitParams? (hd : depth ≤ Nesting.max) (h : splitParams? (.ofNat depth) cs = some parts) :
    Closes Nesting.max depth cs := by
  induction cs generalizing depth parts with
  | nil =>
    obtain ⟨rfl, -⟩ := splitParams?_nil_eq_some hd h
    exact .nil
  | cons c cs ih =>
    obtain ⟨rfl, rfl, rest, hrest, -⟩ | ⟨-, next, rest, hc, hrest, -⟩ := splitParams?_cons_eq_some hd h
    · exact .cons (.other (by decide) (by decide)) (ih hd hrest)
    · exact .cons hc (ih (hc.le hd) hrest)

theorem exists_splitParams?_of_closes (hd : depth ≤ Nesting.max) (h : Closes Nesting.max depth cs) :
    ∃ parts, splitParams? (.ofNat depth) cs = some parts := by
  induction h with
  | nil => exact ⟨[[]], rfl⟩
  | @cons depth next c cs hc _ ih =>
    obtain ⟨parts, hparts⟩ := ih (hc.le hd)
    by_cases hcomma : c = ',' ∧ depth = 0
    · obtain ⟨rfl, rfl⟩ := hcomma
      obtain rfl := hc.eq_of_ne (by decide) (by decide)
      exact ⟨[] :: parts, congrArg (Option.map ([] :: ·)) hparts⟩
    · rw [← Nesting.ofNat_eq_zero_iff hd] at hcomma
      rw [splitParams?_cons hcomma ((Nesting.next?_eq_some_iff hd).2 ⟨next, hc, rfl⟩), hparts]
      exact ⟨extendFirst c parts, rfl⟩

/-- Every comma of a text stands in brackets, `depth` of them being open where the text starts. -/
def CommasInside (depth : Nat) (cs : List Char) : Prop :=
  ∀ before after, cs = before ++ ',' :: after → before.count '>' < depth + before.count '<'

theorem commasInside_nil : CommasInside depth [] := by
  intro before after h
  simp at h

theorem CommasInside.cons {next : Nat} (hcomma : ¬(c = ',' ∧ depth = 0)) (hc : Nesting.Step Nesting.max depth c next)
    (h : CommasInside next cs) : CommasInside depth (c :: cs) := by
  intro before after he
  cases before with
  | nil =>
    obtain ⟨rfl, rfl⟩ := List.cons.inj he
    have hd : depth ≠ 0 := fun hd => hcomma ⟨rfl, hd⟩
    simp only [List.count_nil]
    omega
  | cons d before =>
    obtain ⟨rfl, rfl⟩ := List.cons.inj he
    have hlt := h before after rfl
    have hcount := hc.count before
    omega

/-- The first part closes the brackets that are open where the text starts, the other parts close their own. -/
theorem splitParams?_eq_some (hd : depth ≤ Nesting.max) (h : splitParams? (.ofNat depth) cs = some parts) :
    ∃ first rest, parts = first :: rest ∧ joinWith ',' parts = cs ∧
      (Closes Nesting.max depth first ∧ CommasInside depth first) ∧
      ∀ part ∈ rest, Closes Nesting.max 0 part ∧ CommasInside 0 part := by
  induction cs generalizing depth parts with
  | nil =>
    obtain ⟨rfl, rfl⟩ := splitParams?_nil_eq_some hd h
    exact ⟨[], [], rfl, rfl, ⟨.nil, commasInside_nil⟩, nofun⟩
  | cons c cs ih =>
    obtain ⟨rfl, rfl, rest, hrest, rfl⟩ | ⟨hcomma, next, rest, hc, hrest, rfl⟩ := splitParams?_cons_eq_some hd h
    · obtain ⟨first, rest, rfl, hjoin, hfirst, hparts⟩ := ih hd hrest
      refine ⟨[], first :: rest, rfl, ?_, ⟨.nil, commasInside_nil⟩, List.forall_mem_cons.2 ⟨hfirst, hparts⟩⟩
      rw [joinWith, List.nil_append, hjoin]
      exact List.cons_ne_nil first rest
    · obtain ⟨first, rest, rfl, hjoin, ⟨hcloses, hinside⟩, hparts⟩ := ih (hc.le hd) hrest
      refine ⟨c :: first, rest, rfl, ?_, ⟨.cons hc hcloses, hinside.cons hcomma hc⟩, hparts⟩
      rw [← hjoin]
      cases rest <;> rfl

theorem exists_splitParams?_iff :
    (∃ parts, splitParams? 0 inner = some parts) ↔ Counted inner := by
  rw [← closes_max_iff]
  constructor
  · rintro ⟨parts, h⟩
    exact closes_of_splitParams? (Nat.zero_le _) h
  · exact exists_splitParams?_of_closes (Nat.zero_le _)

/-- A list is refused if it is not split. -/
theorem sourceParams_eq_ite (hblank : isBlankText inner = false) :
    sourceParams inner whole =
      (splitParams? 0 inner).elim (.error (.unbalancedParams (String.ofList whole))) .ok := by
  rw [sourceParams, hblank]
  cases splitParams? 0 inner <;> rfl

theorem sourceParams_of_not_counted (hblank : isBlankText inner = false) (h : ¬Counted inner) :
    sourceParams inner whole = .error (.unbalancedParams (String.ofList whole)) := by
  rw [← exists_splitParams?_iff, ← Option.isSome_iff_exists, Option.not_isSome_iff_eq_none] at h
  rw [sourceParams_eq_ite hblank, h, Option.elim_none]

theorem sourceParams_of_counted (hblank : isBlankText inner = false) (h : Counted inner) :
    ∃ parts, splitParams? 0 inner = some parts ∧ sourceParams inner whole = .ok parts := by
  obtain ⟨parts, hsplit⟩ := exists_splitParams?_iff.2 h
  exact ⟨parts, hsplit, by rw [sourceParams_eq_ite hblank, hsplit, Option.elim_some]⟩

theorem sourceParams_eq_error {e : SignatureError} (h : sourceParams inner whole = .error e) :
    e = .unbalancedParams (String.ofList whole) := by
  rw [sourceParams] at h
  split at h
  · cases h
  · split at h
    · cases h
    · exact (Except.error.inj h).symm

/-- The parts of a list are balanced and have no comma at which they would be split again. -/
theorem splitParams?_parts (h : splitParams? 0 cs = some parts) :
    joinWith ',' parts = cs ∧ ∀ part ∈ parts, Counted part ∧ CommasInside 0 part := by
  obtain ⟨first, rest, rfl, hjoin, hfirst, hrest⟩ := splitParams?_eq_some (Nat.zero_le _) h
  refine ⟨hjoin, fun part hpart => ?_⟩
  rw [← closes_max_iff]
  obtain rfl | hpart := List.mem_cons.1 hpart
  · exact hfirst
  · exact hrest part hpart

theorem counted_of_sourceParams (h : sourceParams inner whole = .ok parts) {part : List Char}
    (hpart : part ∈ parts) : Counted part := by
  rw [sourceParams] at h
  split at h
  · obtain rfl := Except.ok.inj h
    cases hpart
  · split at h
    next hsplit =>
      obtain rfl := Except.ok.inj h
      exact ((splitParams?_parts hsplit).2 part hpart).1
    · cases h

namespace TypeName

variable {raw plain : List Char}

theorem parse_eq_error_iff {e : SignatureError} (h : erase? 0 raw = some plain) :
    parse raw = .error e ↔ e = .invalidType (String.ofList (trim raw)) ∧ Owner.ofChars? (peel plain).2 = none := by
  rw [parse]
  cases ho : Owner.ofChars? (peel plain).2 with
  | none =>
    have hsource : ofSource? raw = none := by simp [ofSource?, h, ho]
    simp [hsource, eq_comm]
  | some base =>
    have hsource : ofSource? raw = some ⟨base, (peel plain).1⟩ := by simp [ofSource?, h, ho]
    simp [hsource]

end TypeName

section
variable {tail : List Char} {blamed : String}

theorem MemberName.parse_ne_invalidType : MemberName.parse cs ≠ .error (.invalidType blamed) := by
  intro h
  rw [MemberName.parse] at h
  split at h
  · cases h
  · cases h

theorem Owner.parse_ne_invalidType : Owner.parse cs ≠ .error (.invalidType blamed) := by
  intro h
  rw [Owner.parse] at h
  split at h
  · cases h
  · cases h

theorem Descriptor.params_ne_invalidType : Descriptor.params inner tail ≠ .error (.invalidType blamed) := by
  intro h
  rw [Descriptor.params] at h
  split at h
  · split at h
    · cases h
    · cases h
  · cases h

theorem readParams_eq_invalidType_iff : readParams inner tail whole = .error (.invalidType blamed) ↔
    isBlankText tail = true ∧ ∃ parts, sourceParams inner whole = .ok parts ∧
      parts.mapM TypeName.parse = .error (.invalidType blamed) := by
  rw [readParams]
  split
  next ht =>
    rw [bind_eq_error_iff]
    constructor
    · rintro (h | h)
      · cases sourceParams_eq_error h
      · exact ⟨ht, h⟩
    · rintro ⟨-, h⟩
      exact .inr h
  next ht =>
    constructor
    · intro h
      exact absurd h Descriptor.params_ne_invalidType
    · rintro ⟨h, -⟩
      exact absurd h ht

theorem Member.exists_of_invalidType {raw : List Char} (h : Member.parse raw whole = .error (.invalidType blamed)) :
    ∃ name inner tail n, raw = methodChars name inner tail ∧ MemberName.parse name = .ok n ∧
      readParams inner tail whole = .error (.invalidType blamed) := by
  cases hc : cut? '(' raw with
  | none =>
    simp only [Member.parse, hc] at h
    exact absurd (map_eq_error_iff.1 h) MemberName.parse_ne_invalidType
  | some cut =>
    obtain ⟨name, rest⟩ := cut
    cases hl : cutLast? ')' rest with
    | none =>
      simp only [Member.parse, hc, hl] at h
      cases h
    | some cut =>
      obtain ⟨inner, tail⟩ := cut
      obtain ⟨rfl, hn⟩ := cut?_eq_some.1 hc
      obtain ⟨rfl, ht⟩ := cutLast?_eq_some.1 hl
      have h : Member.parse (methodChars name inner tail) whole = .error (.invalidType blamed) := h
      rw [Member.parse_methodChars hn ht, bind_eq_error_iff] at h
      obtain h | ⟨n, hname, h⟩ := h
      · exact absurd h MemberName.parse_ne_invalidType
      · exact ⟨name, inner, tail, n, rfl, hname, map_eq_error_iff.1 h⟩

end

namespace Signature

/-- Reading the text comes to this parameter. It stands in the list of a method whose owner and name can be read,
and so can the parameters before it. -/
inductive ReachesParam (text : String) (part : List Char) : Prop where
  | intro {owner member name inner tail : List Char} {o : Owner} {n : MemberName} {before after : List (List Char)}
    (htext : trim text.toList = owner ++ '#' :: member) (howner : Owner.parse owner = .ok o)
    (hmember : trim member = methodChars name inner tail) (hname : MemberName.parse name = .ok n)
    (htail : isBlankText tail = true)
    (hparts : sourceParams inner (trim text.toList) = .ok (before ++ part :: after))
    (hbefore : ∀ p ∈ before, ∃ t, TypeName.parse p = .ok t) : ReachesParam text part

theorem ReachesParam.counted {text : String} {part : List Char} (h : ReachesParam text part) : Counted part := by
  cases h with
  | intro _ _ _ _ _ hparts _ => exact counted_of_sourceParams hparts (List.mem_append_right _ List.mem_cons_self)

theorem parse_eq_invalidType_iff {text : String} {blamed : String} :
    parse text = .error (.invalidType blamed) ↔
      ∃ part, ReachesParam text part ∧ TypeName.parse part = .error (.invalidType blamed) := by
  constructor
  · intro h
    rw [parse, ofChars] at h
    split at h
    · cases h
    · cases hc : cut? '#' (trim text.toList) with
      | none =>
        simp only [hc] at h
        obtain h | ⟨o, -, h⟩ := bind_eq_error_iff.1 h
        · exact absurd h Owner.parse_ne_invalidType
        · cases h
      | some cut =>
        obtain ⟨owner, member⟩ := cut
        simp only [hc] at h
        obtain h | ⟨o, howner, h⟩ := bind_eq_error_iff.1 h
        · exact absurd h Owner.parse_ne_invalidType
        · obtain ⟨name, inner, tail, n, hmember, hname, h⟩ := Member.exists_of_invalidType (map_eq_error_iff.1 h)
          obtain ⟨htail, parts, hparts, h⟩ := readParams_eq_invalidType_iff.1 h
          obtain ⟨before, part, after, rfl, hbefore, h⟩ := mapM_eq_error_iff.1 h
          exact ⟨part, .intro (cut?_eq_some.1 hc).1 howner hmember hname htail hparts hbefore, h⟩
  · rintro ⟨part, hreach, h⟩
    cases hreach with
    | @intro owner member name inner tail o n before after htext howner hmember hname htail hparts hbefore =>
      have hne : trim text.toList ≠ [] := by simp [htext]
      have hc : cut? '#' (trim text.toList) = some (owner, member) :=
        cut?_eq_some.2 ⟨htext, Owner.hash_not_mem_of_parse howner⟩
      have ht : ')' ∉ tail := fun hm => by cases List.all_eq_true.1 htail _ hm
      have hread : readParams inner tail (trim text.toList) = .error (.invalidType blamed) :=
        readParams_eq_invalidType_iff.2 ⟨htail, _, hparts, mapM_eq_error_iff.2 ⟨before, part, after, rfl, hbefore, h⟩⟩
      have hm : Member.parse (trim member) (trim text.toList) = .error (.invalidType blamed) := by
        rw [hmember, Member.parse_methodChars (MemberName.paren_not_mem_of_parse hname) ht, hname]
        exact map_eq_error_iff.2 hread
      simp only [parse, ofChars, hne, if_false, hc, howner, hm]
      rfl

end Signature

/-- A list that is not blank is refused if and only if a bracket closes none that is open, the numbers of brackets
differ, or more brackets are open at once than are counted. If it is not refused, its parts joined with commas are the
list again, and each of them is balanced and has commas in brackets only. A type cannot be erased for the same reasons,
none of which a parameter that reading a signature comes to has. So the only thing wrong with such a parameter is the
name outside its brackets, and a signature has an invalid type if and only if it has a parameter of this kind. -/
theorem lists_split_into_balanced_params :
    (∀ inner whole, isBlankText inner = false →
      (sourceParams inner whole = .error (.unbalancedParams (String.ofList whole)) ↔
        Unbalanced inner ∨ ¬NestedWithin Nesting.max inner) ∧
      (¬Unbalanced inner → NestedWithin Nesting.max inner → ∃ parts, sourceParams inner whole = .ok parts ∧
        joinWith ',' parts = inner ∧ ∀ part ∈ parts, Balanced part ∧ CommasInside 0 part)) ∧
    (∀ raw, TypeName.erase? 0 raw = none ↔ Unbalanced raw ∨ ¬NestedWithin Nesting.max raw) ∧
    (∀ text part, Signature.ReachesParam text part → Balanced part ∧ NestedWithin Nesting.max part ∧
      ∃ plain, TypeName.erase? 0 part = some plain ∧ ∀ e, TypeName.parse part = .error e ↔
        e = .invalidType (String.ofList (trim part)) ∧ Owner.ofChars? (TypeName.peel plain).2 = none) ∧
    ∀ text blamed, Signature.parse text = .error (.invalidType blamed) ↔
      ∃ part, Signature.ReachesParam text part ∧ TypeName.parse part = .error (.invalidType blamed) := by
  simp only [← not_counted_iff]
  refine ⟨fun inner whole hblank => ⟨⟨?_, sourceParams_of_not_counted hblank⟩, ?_⟩, fun raw => ?_,
    fun text part hreach => ?_, fun text blamed => Signature.parse_eq_invalidType_iff⟩
  · intro h hcounted
    obtain ⟨parts, -, hparts⟩ := @sourceParams_of_counted inner whole hblank hcounted
    cases h.symm.trans hparts
  · intro hbalanced hnested
    have hcounted : Counted inner := ⟨not_not.1 fun h => hbalanced (unbalanced_iff.2 h), hnested⟩
    obtain ⟨parts, hsplit, hparts⟩ := @sourceParams_of_counted inner whole hblank hcounted
    obtain ⟨hjoin, hall⟩ := splitParams?_parts hsplit
    exact ⟨parts, hparts, hjoin, fun part hpart => ⟨(hall part hpart).1.balanced, (hall part hpart).2⟩⟩
  · rw [← TypeName.exists_erase?_iff, ← Option.isSome_iff_exists, Option.not_isSome_iff_eq_none]
  · obtain ⟨plain, hplain⟩ := TypeName.exists_erase?_iff.2 hreach.counted
    exact ⟨hreach.counted.balanced, hreach.counted.nested, plain, hplain,
      fun e => TypeName.parse_eq_error_iff hplain⟩

/-- A list that is nothing but brackets, one more of which is open in the middle than is counted. It is balanced and
refused. -/
theorem balanced_list_refused :
    let inner := nested 2147483648
    let whole := 'A' :: '#' :: methodChars ['m'] inner []
    isBlankText inner = false ∧ ¬Unbalanced inner ∧
      sourceParams inner whole = .error (.unbalancedParams (String.ofList whole)) := by
  intro inner whole
  have hblank : isBlankText inner = false := isBlankText_nested (by decide)
  have hbalanced : ¬Unbalanced inner := fun h => unbalanced_iff.1 h (balanced_nested 2147483648)
  have hnested : ¬NestedWithin Nesting.max inner := not_nestedWithin_nested (by decide)
  exact ⟨hblank, hbalanced, sourceParams_of_not_counted hblank fun h => hnested h.nested⟩

/-- The comma between brackets is not one between parameters. Of the two parameters the second has no name between
its dots, which is all that is wrong with it. In another list a bracket stays open. -/
theorem params_of_map_and_dots :
    let text := "A#m(Map<K, V>, b..c)"
    let inner := "Map<K, V>, b..c".toList
    let part := " b..c".toList
    (∃ parts, sourceParams inner text.toList = .ok parts ∧ joinWith ',' parts = inner ∧
      ∀ part ∈ parts, Balanced part ∧ CommasInside 0 part) ∧
    sourceParams inner text.toList = .ok ["Map<K, V>".toList, part] ∧
    sourceParams "Map<K, V".toList text.toList = .error (.unbalancedParams text) ∧
    TypeName.parse part = .error (.invalidType "b..c") ∧ Signature.parse text = .error (.invalidType "b..c") := by
  intro text inner part
  obtain ⟨hlists, -, hreached, hparse⟩ := lists_split_into_balanced_params
  have hparts : sourceParams inner text.toList = .ok ["Map<K, V>".toList, part] := by decide
  have hbalanced : ¬Unbalanced inner := unbalanced_iff.not_left.2 (by decide)
  have hnested : NestedWithin Nesting.max inner := nestedWithin_of_count_le (by decide)
  have hsplit := (hlists inner text.toList (by decide)).2 hbalanced hnested
  have hopen : Unbalanced "Map<K, V".toList := .inr (by decide)
  have hrefused := (hlists "Map<K, V".toList text.toList (by decide)).1.2 (.inl hopen)
  rw [String.ofList_toList] at hrefused
  have hbefore : ∀ p ∈ ["Map<K, V>".toList], ∃ t, TypeName.parse p = .ok t :=
    List.forall_mem_singleton.2 ⟨⟨.ofName "Map", 0⟩, by decide⟩
  have hreach : Signature.ReachesParam text part :=
    @Signature.ReachesParam.intro text part ['A'] "m(Map<K, V>, b..c)".toList ['m'] inner [] (.ofName "A")
      ⟨['m'], by decide⟩ ["Map<K, V>".toList] [] (by decide) (by decide) (by decide) (by decide) rfl hparts hbefore
  obtain ⟨-, -, plain, hplain, hblamed⟩ := hreached text part hreach
  have herased : TypeName.erase? 0 part = some "b..c".toList := by decide
  obtain rfl := Option.some.inj (herased.symm.trans hplain)
  have htype : TypeName.parse part = .error (.invalidType "b..c") :=
    (hblamed (.invalidType "b..c")).2 ⟨by decide, by decide⟩
  have hinvalid : Signature.parse text = .error (.invalidType "b..c") :=
    (hparse text "b..c").2 ⟨part, hreach, htype⟩
  exact ⟨hsplit, hparts, hrefused, htype, hinvalid⟩

end ApiRules
