import ApiRules.Merge.State
import ApiRules.Proofs.Dataset.Contents
import ApiRules.Proofs.Signature.Params

/-!
The spellings of a signature. Owners may be dotted, slashed or descriptors, white space may stand around the parts,
and in parameter types it may stand anywhere, as generic arguments may. All spellings are read as the one
signature, so rules and queries meet however they are written.
-/
namespace ApiRules

open Text

/-- White space stands around the text. -/
def Padded (cs raw : List Char) : Prop :=
  ∃ before after, isBlankText before = true ∧ isBlankText after = true ∧ raw = before ++ (cs ++ after)

/-- Any dots are written as slashes or dollar signs. -/
def Respelled (plain raw : List Char) : Prop :=
  List.Forall₂ (fun c d => d = c ∨ c = '.' ∧ (d = '/' ∨ d = '$')) plain raw

/-- White space is put anywhere, and so are groups in angle brackets with any text that is balanced. -/
inductive Sprinkled : List Char → List Char → Prop where
  | nil : Sprinkled [] []
  | keep {plain raw : List Char} {c : Char} (h : Sprinkled plain raw) : Sprinkled (c :: plain) (c :: raw)
  | blank {plain raw : List Char} {c : Char} (hb : isBlank c = true) (h : Sprinkled plain raw) :
      Sprinkled plain (c :: raw)
  | group {plain raw g : List Char} (hg : Balanced g) (h : Sprinkled plain raw) :
      Sprinkled plain ('<' :: (g ++ '>' :: raw))

/-- The name of a class, or its descriptor. -/
inductive Owner.Spelling (o : Owner) : List Char → Prop where
  | name {name : List Char} (h : Respelled o.chars name) : Spelling o name
  | descriptor {name : List Char} (h : Respelled o.chars name) : Spelling o ('L' :: (name ++ [';']))

/-- Dimensions are pairs of brackets, the last of which may be three dots. -/
inductive Dimensions : Nat → List Char → Prop where
  | brackets (n : Nat) : Dimensions n (TypeName.brackets n)
  | varargs (n : Nat) : Dimensions (n + 1) (TypeName.brackets n ++ ['.', '.', '.'])

/-- A class or primitive type with its dimensions, and anything that is not kept sprinkled in. -/
def TypeName.Spelling (t : TypeName) (raw : List Char) : Prop :=
  ∃ name marks, t.base.Spelling name ∧ Dimensions t.dimensions marks ∧ Sprinkled (name ++ marks) raw

/-- Each part is spelled by itself. White space around the whole text stands around its first and its last
part. -/
inductive Signature.Spelling : Signature → List Char → Prop where
  | ofClass {o : Owner} {name owner : List Char} (hn : o.Spelling name) (ho : Padded name owner) :
      Spelling ⟨o, none⟩ owner
  | field {o : Owner} {n : MemberName} {name owner member : List Char} (hn : o.Spelling name)
      (ho : Padded name owner) (hm : Padded n.chars member) :
      Spelling ⟨o, some (.field n)⟩ (owner ++ '#' :: member)
  | method {o : Owner} {n : MemberName} {ts : List TypeName} {name owner member tail : List Char}
      {params : List (List Char)} (hn : o.Spelling name) (ho : Padded name owner) (hm : Padded n.chars member)
      (hp : List.Forall₂ TypeName.Spelling ts params) (ht : isBlankText tail = true) :
      Spelling ⟨o, some (.method n ts)⟩ (owner ++ '#' :: methodChars member (joinWith ',' params) tail)

variable {plain raw name : List Char}

namespace Sprinkled

theorem refl (cs : List Char) : Sprinkled cs cs := by
  induction cs with
  | nil => exact .nil
  | cons c cs ih => exact .keep ih

theorem balanced (h : Sprinkled plain raw) (hp : ∀ c ∈ plain, c ≠ '<' ∧ c ≠ '>') : Balanced raw := by
  induction h with
  | nil => exact balanced_of_forall_ne hp
  | keep _ ih =>
    obtain ⟨⟨hl, hr⟩, hp⟩ := List.forall_mem_cons.1 hp
    exact (balanced_singleton hl hr).append (ih hp)
  | blank hb _ ih => exact (balanced_singleton (ne_of_isBlank hb rfl) (ne_of_isBlank hb rfl)).append (ih hp)
  | group hg _ ih =>
    rw [← bracketed_append]
    exact hg.bracketed.append (ih hp)

theorem erase? (h : Sprinkled plain raw) (hn : NestedWithin Nesting.max raw)
    (hp : ∀ c ∈ plain, isBlank c = false ∧ c ≠ '<' ∧ c ≠ '>') : TypeName.erase? 0 raw = some plain := by
  induction h with
  | nil => rfl
  | keep _ ih =>
    obtain ⟨⟨hb, hl, hr⟩, hp⟩ := List.forall_mem_cons.1 hp
    have hn := ((nestedWithin_append (balanced_singleton hl hr)).1 hn).2
    rw [TypeName.erase?_cons hb (Nesting.next?_other (Int32.le_refl 0) hl hr), ih hn hp]
    simp [hl, hr]
  | blank hb _ ih =>
    have hblank := balanced_singleton (ne_of_isBlank hb rfl) (ne_of_isBlank hb rfl)
    rw [TypeName.erase?, if_pos hb, ih ((nestedWithin_append hblank).1 hn).2 hp]
  | group hg _ ih =>
    rw [← bracketed_append] at hn
    obtain ⟨hgroup, hn⟩ := (nestedWithin_append hg.bracketed).1 hn
    rw [TypeName.erase?_group hg hgroup.of_bracketed, ih hn hp]

end Sprinkled

theorem counted_of_isBlankText {cs : List Char} (h : isBlankText cs = true) : Counted cs := by
  have hall := List.all_eq_true.1 h
  exact .of_forall_ne fun c hc => ⟨ne_of_isBlank (hall c hc) rfl, ne_of_isBlank (hall c hc) rfl⟩

theorem Padded.counted {cs : List Char} (h : Padded cs raw) (hcs : Counted cs) : Counted raw := by
  obtain ⟨before, after, hb, ha, rfl⟩ := h
  exact (counted_of_isBlankText hb).append (hcs.append (counted_of_isBlankText ha))

theorem Respelled.refl (cs : List Char) : Respelled cs cs := List.forall₂_same.2 fun _ _ => .inl rfl

theorem Respelled.map_separator (h : Respelled plain raw) (hp : ∀ c ∈ plain, Owner.separator c = c) :
    raw.map Owner.separator = plain := by
  induction h with
  | nil => rfl
  | cons hd _ ih =>
    obtain ⟨hc, hp⟩ := List.forall_mem_cons.1 hp
    rw [List.map_cons, ih hp]
    obtain rfl | ⟨rfl, rfl | rfl⟩ := hd
    · rw [hc]
    · rfl
    · rfl

namespace Owner

variable {o : Owner}

section
variable (h : Respelled o.chars name)
include h

theorem map_separator_of_respelled : name.map separator = o.chars :=
  h.map_separator fun _ hc => separator_of_mem hc

theorem nameOr_of_respelled {c : Char} (hc : c ∈ name) : NameOr ['.', '/', '$'] c := by
  have hs : separator c ∈ o.chars := map_separator_of_respelled h ▸ List.mem_map_of_mem hc
  by_cases hm : c = '/' ∨ c = '$'
  · obtain rfl | rfl := hm <;> decide
  · rw [separator, if_neg hm] at hs
    exact (nameOr_of_mem hs).mono (by decide)

theorem getLast?_ne_dot_of_respelled : name.getLast? ≠ some '.' := by
  intro hl
  have hs : o.chars.getLast? = some '.' := by
    rw [← map_separator_of_respelled h, List.getLast?_map, hl]
    rfl
  exact getLast?_chars_ne_dot o hs

end

namespace Spelling

theorem refl (o : Owner) : o.Spelling o.chars := .name (Respelled.refl o.chars)

theorem nameOr_of_mem (h : o.Spelling name) {c : Char} (hc : c ∈ name) : NameOr ['.', '/', '$', ';'] c := by
  cases h with
  | name h => exact (nameOr_of_respelled h hc).mono (by decide)
  | descriptor h =>
    simp only [List.mem_cons, List.mem_append, List.not_mem_nil, or_false] at hc
    obtain rfl | hc | rfl := hc
    · decide
    · exact (nameOr_of_respelled h hc).mono (by decide)
    · decide

theorem getLast?_ne_dot (h : o.Spelling name) : name.getLast? ≠ some '.' := by
  cases h with
  | name h => exact getLast?_ne_dot_of_respelled h
  | descriptor _ => simp [List.getLast?_cons]

theorem map_separator_unwrap (h : o.Spelling name) : (unwrap name).map separator = o.chars := by
  cases h with
  | name h =>
    have hs : ';' ∉ name := fun hm => absurd (nameOr_of_respelled h hm) (by decide)
    rw [unwrap_eq_self hs, map_separator_of_respelled h]
  | descriptor h => rw [unwrap, dropEnding?_append, Option.getD_some, map_separator_of_respelled h]

theorem not_blank (h : o.Spelling name) {c : Char} (hc : c ∈ name) : isBlank c = false :=
  (h.nameOr_of_mem hc).not_blank (by decide)

theorem counted (h : o.Spelling name) : Counted name :=
  .of_forall_ne fun _ hc => ⟨(h.nameOr_of_mem hc).ne (by decide), (h.nameOr_of_mem hc).ne (by decide)⟩

theorem ofChars? (h : o.Spelling name) : Owner.ofChars? name = some o := by
  apply ofChars?_eq_some
  rw [trim_eq_self fun c hc => h.not_blank hc, h.map_separator_unwrap]

theorem parse (h : o.Spelling name) (hp : Padded name raw) : Owner.parse raw = .ok o := by
  obtain ⟨before, after, hb, ha, rfl⟩ := hp
  rw [parse_congr (trim_padded hb ha), Owner.parse, h.ofChars?]

end Spelling

end Owner

theorem MemberName.parse_padded {n : MemberName} (hp : Padded n.chars raw) : MemberName.parse raw = .ok n := by
  obtain ⟨before, after, hb, ha, rfl⟩ := hp
  rw [parse_congr (trim_padded hb ha), parse_chars]

theorem MemberName.counted_chars (n : MemberName) : Counted n.chars := by
  have hn := n.isMemberName_chars
  simp only [isMemberName, Bool.or_eq_true, Bool.and_eq_true, beq_iff_eq, List.all_eq_true] at hn
  obtain (hi | hi) | ⟨-, ha⟩ := hn
  · rw [hi]
    exact ⟨by decide, nestedWithin_of_count_le (by decide)⟩
  · rw [hi]
    exact ⟨by decide, nestedWithin_of_count_le (by decide)⟩
  · have hor : ∀ c ∈ n.chars, NameOr ['$'] c := fun c hc => (ha c hc).imp id List.mem_singleton.2
    exact .of_forall_ne fun c hc => ⟨(hor c hc).ne (by decide), (hor c hc).ne (by decide)⟩

namespace Dimensions

variable {n : Nat} {marks : List Char}

theorem mem_marks (h : Dimensions n marks) {c : Char} (hc : c ∈ marks) : c ∈ ['.', '[', ']'] := by
  have hbrackets : ∀ m, c ∈ TypeName.brackets m → c ∈ ['[', ']'] := by
    intro m hc
    obtain ⟨p, hp, hc⟩ := List.mem_flatten.1 hc
    rwa [List.eq_of_mem_replicate hp] at hc
  cases h with
  | brackets => exact List.mem_cons_of_mem '.' (hbrackets _ hc)
  | varargs m =>
    obtain hc | hc := List.mem_append.1 hc
    · exact List.mem_cons_of_mem '.' (hbrackets m hc)
    · obtain rfl : c = '.' := by simpa using hc
      exact List.mem_cons_self

theorem peel (h : Dimensions n marks) (hb : ']' ∉ name) (hd : name.getLast? ≠ some '.') :
    TypeName.peel (name ++ marks) = (n, name) := by
  cases h with
  | brackets => exact TypeName.peel_brackets hb hd n
  | varargs m => exact TypeName.peel_varargs hb m

end Dimensions

namespace TypeName.Spelling

variable {t : TypeName}

theorem nameOr_of_mem {marks : List Char} (hn : t.base.Spelling name) (hd : Dimensions t.dimensions marks)
    {c : Char} (hc : c ∈ name ++ marks) : NameOr ['.', '/', '$', ';', '[', ']'] c := by
  obtain hc | hc := List.mem_append.1 hc
  · exact (hn.nameOr_of_mem hc).mono (by decide)
  · exact .inr ((by decide : ['.', '[', ']'] ⊆ _) (hd.mem_marks hc))

theorem balanced (h : t.Spelling raw) : Balanced raw := by
  obtain ⟨name, marks, hn, hd, hs⟩ := h
  refine hs.balanced fun c hc => ?_
  have hc := nameOr_of_mem hn hd hc
  exact ⟨hc.ne (by decide), hc.ne (by decide)⟩

theorem parse (h : t.Spelling raw) (hnested : NestedWithin Nesting.max raw) : TypeName.parse raw = .ok t := by
  obtain ⟨name, marks, hn, hd, hs⟩ := h
  have he : erase? 0 raw = some (name ++ marks) := by
    refine hs.erase? hnested fun c hc => ?_
    have hc := nameOr_of_mem hn hd hc
    exact ⟨hc.not_blank (by decide), hc.ne (by decide), hc.ne (by decide)⟩
  have hb : ']' ∉ name := fun hm => absurd (hn.nameOr_of_mem hm) (by decide)
  have hp : peel (name ++ marks) = (t.dimensions, name) := hd.peel hb hn.getLast?_ne_dot
  have ho : ofSource? raw = some t := by simp [ofSource?, he, hp, hn.ofChars?]
  rw [TypeName.parse, ho]

theorem refl (t : TypeName) : t.Spelling t.chars :=
  ⟨_, _, .refl t.base, .brackets t.dimensions, .refl t.chars⟩

end TypeName.Spelling

section
variable {ts : List TypeName} {params : List (List Char)} {tail : List Char}

theorem balanced_joinWith (h : ∀ p ∈ params, Balanced p) : Balanced (joinWith ',' params) := by
  induction params with
  | nil => exact balanced_of_forall_ne nofun
  | cons p params ih =>
    obtain ⟨hp, hparams⟩ := List.forall_mem_cons.1 h
    cases params with
    | nil => exact hp
    | cons q params => exact hp.append ((balanced_singleton (by decide) (by decide)).append (ih hparams))

theorem nestedWithin_joinWith {room : Nat} (h : ∀ p ∈ params, Balanced p) :
    NestedWithin room (joinWith ',' params) ↔ ∀ p ∈ params, NestedWithin room p := by
  induction params with
  | nil => exact ⟨fun _ => nofun, fun _ => nestedWithin_of_count_le (Nat.zero_le room)⟩
  | cons p params ih =>
    obtain ⟨hp, hparams⟩ := List.forall_mem_cons.1 h
    cases params with
    | nil => exact List.forall_mem_singleton.symm
    | cons q params =>
      have hcomma : Balanced [','] := balanced_singleton (by decide) (by decide)
      have hjoin : joinWith ',' (p :: q :: params) = p ++ ([','] ++ joinWith ',' (q :: params)) := rfl
      have hroom : NestedWithin room [','] := nestedWithin_of_count_le (Nat.zero_le room)
      rw [hjoin, nestedWithin_append hp, nestedWithin_append hcomma, ih hparams, List.forall_mem_cons (a := p),
        and_iff_right hroom]

theorem balanced_of_spelling (hp : List.Forall₂ TypeName.Spelling ts params) : ∀ p ∈ params, Balanced p := by
  intro p hm
  obtain ⟨t, -, ht⟩ := Sequences.exists_of_forall₂ hp hm
  exact ht.balanced

theorem readParams_of_spelling (hp : List.Forall₂ TypeName.Spelling ts params) (ht : isBlankText tail = true)
    (hn : NestedWithin Nesting.max (joinWith ',' params)) (whole : List Char) :
    readParams (joinWith ',' params) tail whole = .ok ts := by
  have hnested := (nestedWithin_joinWith (balanced_of_spelling hp)).1 hn
  have hread : List.Forall₂ (fun p t => TypeName.parse p = .ok t) params ts := by
    refine ((List.forall₂_and_left params ts).2 ⟨hnested, hp.flip⟩).imp ?_
    rintro p t ⟨hn, hs⟩
    exact TypeName.Spelling.parse hs hn
  exact readParams_joinWith (mapM_eq_ok_iff.2 hread) ht whole

/-- A list in which too many brackets are open is refused, whatever it spells. -/
theorem readParams_of_not_nested {inner whole : List Char} (ht : isBlankText tail = true)
    (hn : ¬NestedWithin Nesting.max inner) :
    readParams inner tail whole = .error (.unbalancedParams (String.ofList whole)) := by
  have hblank : isBlankText inner = false := by
    by_contra hb
    exact hn (counted_of_isBlankText (by simpa using hb)).nested
  rw [readParams, if_pos ht, sourceParams_of_not_counted hblank fun h => hn h.nested]
  rfl

end

theorem Padded.refl (cs : List Char) : Padded cs cs := ⟨[], [], rfl, rfl, by simp⟩

namespace Signature.Spelling

variable {s : Signature}

theorem refl (s : Signature) : s.Spelling s.chars := by
  obtain ⟨o, member⟩ := s
  match member with
  | none => exact .ofClass (.refl o) (.refl o.chars)
  | some (.field n) => exact .field (.refl o) (.refl o.chars) (.refl n.chars)
  | some (.method n ts) =>
    have hts : List.Forall₂ TypeName.Spelling ts (ts.map TypeName.chars) :=
      List.forall₂_map_right_iff.2 (List.forall₂_same.2 fun t _ => .refl t)
    have hm := Spelling.method (.refl o) (.refl o.chars) (.refl n.chars) hts (rfl : isBlankText [] = true)
    have he : methodChars n.chars (joinWith ',' (ts.map TypeName.chars)) [] = (Member.method n ts).chars := by
      simp [methodChars, Member.chars]
    rwa [he] at hm

/-- In a method brackets are open in the parameter list only. -/
theorem nestedWithin_method_iff {owner member inner tail : List Char} (ho : Counted owner) (hm : Counted member)
    (hi : Balanced inner) (ht : isBlankText tail = true) :
    NestedWithin Nesting.max (owner ++ '#' :: methodChars member inner tail) ↔ NestedWithin Nesting.max inner := by
  have hmark : ∀ c ∈ ['#', '(', ')'], Counted [c] := by
    intro c hc
    refine .singleton ?_ ?_
    · rintro rfl
      exact absurd hc (by decide)
    · rintro rfl
      exact absurd hc (by decide)
  have happend : owner ++ '#' :: methodChars member inner tail =
      owner ++ (['#'] ++ (member ++ (['('] ++ (inner ++ ([')'] ++ tail))))) := rfl
  have htail : NestedWithin Nesting.max ([')'] ++ tail) :=
    (hmark ')' (by decide)).nestedWithin_append_iff.2 (counted_of_isBlankText ht).nested
  rw [happend, ho.nestedWithin_append_iff, (hmark '#' (by decide)).nestedWithin_append_iff,
    hm.nestedWithin_append_iff, (hmark '(' (by decide)).nestedWithin_append_iff, nestedWithin_append hi,
    and_iff_left htail]

theorem ofChars_method_of_spelling {o : Owner} {n : MemberName} {name owner member tail : List Char}
    {params : List (List Char)} (hn : o.Spelling name) (ho : Padded name owner)
    (hm : Padded n.chars member) (ht : isBlankText tail = true) :
    Signature.ofChars (owner ++ '#' :: methodChars member (joinWith ',' params) tail) =
      (fun ts => ⟨o, some (.method n ts)⟩) <$> readParams (joinWith ',' params) tail
        (trim (owner ++ '#' :: methodChars member (joinWith ',' params) tail)) := by
  have hclose : ')' ∉ tail := fun hc => absurd (List.all_eq_true.1 ht ')' hc) (by decide)
  exact ofChars_method (hn.parse ho) (MemberName.parse_padded hm) hclose

theorem ofChars (h : s.Spelling raw) (hnested : NestedWithin Nesting.max raw) : Signature.ofChars raw = .ok s := by
  cases h with
  | ofClass hn ho => exact ofChars_class (hn.parse ho)
  | field hn ho hm => exact ofChars_field (hn.parse ho) (MemberName.parse_padded hm)
  | method hn ho hm hts ht =>
    have hi := balanced_joinWith (balanced_of_spelling hts)
    have hinner := (nestedWithin_method_iff (ho.counted hn.counted) (hm.counted (MemberName.counted_chars _)) hi ht).1
      hnested
    rw [ofChars_method_of_spelling hn ho hm ht, readParams_of_spelling hts ht hinner]
    rfl

/-- Only in a parameter list too many brackets can be open, and then the list is refused. -/
theorem ofChars_of_not_nested (h : s.Spelling raw) (hnested : ¬NestedWithin Nesting.max raw) :
    Signature.ofChars raw = .error (.unbalancedParams (String.ofList (trim raw))) := by
  cases h with
  | ofClass hn ho => exact absurd (ho.counted hn.counted).nested hnested
  | field hn ho hm =>
    have hmember := hm.counted (MemberName.counted_chars _)
    have hmark : Counted ['#'] := .singleton (by decide) (by decide)
    exact absurd ((ho.counted hn.counted).append (hmark.append hmember)).nested hnested
  | method hn ho hm hts ht =>
    have hi := balanced_joinWith (balanced_of_spelling hts)
    have hinner := mt (nestedWithin_method_iff (ho.counted hn.counted) (hm.counted (MemberName.counted_chars _)) hi
      ht).2 hnested
    rw [ofChars_method_of_spelling hn ho hm ht, readParams_of_not_nested ht hinner]
    rfl

/-- A spelling of a class does not end as a pattern of everything under it does. -/
theorem hash_or_star (h : s.Spelling raw) : '#' ∈ raw ∨ '*' ∉ raw := by
  cases h with
  | ofClass hn ho =>
    refine .inr fun hm => ?_
    obtain ⟨before, after, hb, ha, rfl⟩ := ho
    simp only [List.mem_append] at hm
    obtain hm | hm | hm := hm
    · exact absurd (List.all_eq_true.1 hb '*' hm) (by decide)
    · exact absurd (hn.nameOr_of_mem hm) (by decide)
    · exact absurd (List.all_eq_true.1 ha '*' hm) (by decide)
  | field | method => exact .inl (by simp)

end Signature.Spelling

theorem Pattern.parse_eq_exact (h : '#' ∈ raw ∨ '*' ∉ raw) :
    Pattern.parse (String.ofList raw) = .exact <$> Signature.ofChars raw := by
  have htrim : Signature.ofChars (trim raw) = Signature.ofChars raw := by
    rw [Signature.ofChars, Signature.ofChars, trim_trim]
  rw [parse, String.toList_ofList]
  split
  · rename_i owner ho
    have ho := dropEnding?_eq_some.1 ho
    have hhash : '#' ∈ owner := by
      obtain hm | hm := h
      · have hm := mem_trim hm (by decide)
        rw [ho] at hm
        simpa using hm
      · exact absurd (mem_of_mem_trim (ho ▸ by simp)) hm
    rw [if_pos hhash, htrim]
  · rw [htrim]

/-- All spellings of a signature, the canonical one among them, are read as this signature, both where a query
names it and where a rule does. So the rules of one spelling are merged with those of any other, and in a loaded
dataset a query in one spelling finds the rules of all. Only where more brackets are open at once than are counted, the
parameter list of a spelling is refused. -/
theorem spellings_meet (s : Signature) :
    s.Spelling s.chars ∧ NestedWithin Nesting.max s.chars ∧
    ∀ raw, s.Spelling raw →
      (NestedWithin Nesting.max raw →
        Signature.parse (String.ofList raw) = .ok s ∧
        Pattern.parse (String.ofList raw) = .ok (.exact s) ∧
        (∀ (m : MergeState) source payload artifact,
          m.add (.record source (String.ofList raw) payload artifact) =
            m.addRecord ⟨.exact s, payload, source, artifact⟩) ∧
        ∀ t digest d, Dataset.ofTable t digest = .ok d →
          ∀ g ∈ t.groups, ∀ e ∈ g.entries, e.pattern = String.ofList raw → ∀ rule ∈ e.rules,
            ∀ query, s.Spelling query → NestedWithin Nesting.max query →
              ∃ s', Signature.parse (String.ofList query) = .ok s' ∧
                ⟨.exact s, rule.payload, g.source, rule.artifact⟩ ∈ d.lookupExact s') ∧
      (¬NestedWithin Nesting.max raw →
        Signature.parse (String.ofList raw) = .error (.unbalancedParams (String.ofList (trim raw)))) := by
  have hparse : ∀ raw, s.Spelling raw → NestedWithin Nesting.max raw →
      Signature.parse (String.ofList raw) = .ok s := by
    intro raw h hn
    rw [Signature.parse, String.toList_ofList, h.ofChars hn]
  refine ⟨.refl s, ?_, fun raw h => ⟨fun hn => ?_, fun hn => ?_⟩⟩
  · by_contra hn
    cases (Signature.ofChars_chars s).symm.trans ((Signature.Spelling.refl s).ofChars_of_not_nested hn)
  · have hpattern : Pattern.parse (String.ofList raw) = .ok (.exact s) := by
      rw [Pattern.parse_eq_exact h.hash_or_star, h.ofChars hn]
      rfl
    refine ⟨hparse raw h hn, hpattern, fun m source payload artifact => ?_, ?_⟩
    · simp only [MergeState.add, hpattern]
    · intro t digest d hd g hg e he hraw rule hrule query hquery hnested
      have hhas : t.Has ⟨.exact s, rule.payload, g.source, rule.artifact⟩ :=
        ⟨g, hg, e, he, rule, hrule, hraw ▸ hpattern, rfl, rfl, rfl⟩
      exact ⟨s, hparse query hquery hnested, (Dataset.represents_of_ofTable hd).mem_lookupExact.2 ⟨hhas, rfl⟩⟩
  · rw [Signature.parse, String.toList_ofList, h.ofChars_of_not_nested hn]

/-- White space around an owner, with the marks of a descriptor around both. And a group that is balanced in a
parameter, with one more bracket open in the middle than is counted. -/
theorem descriptor_with_space_and_deep_group_refused :
    let s : Signature := ⟨.ofName "A", some (.method ⟨['m'], by decide⟩ [⟨.ofName "x", 0⟩])⟩
    let raw := 'A' :: '#' :: methodChars ['m'] ('x' :: bracketed (nested 2147483647)) []
    Signature.parse "A" = .ok ⟨.ofName "A", none⟩ ∧ Signature.parse "L A ;" = .error (.invalidOwner "L A ;") ∧
      s.Spelling raw ∧ Signature.parse (String.ofList raw) = .error (.unbalancedParams (String.ofList (trim raw))) := by
  intro s raw
  have hg : Balanced (nested 2147483647) := balanced_nested 2147483647
  have hx : (⟨.ofName "x", 0⟩ : TypeName).Spelling ('x' :: bracketed (nested 2147483647)) :=
    ⟨_, _, .refl (.ofName "x"), .brackets 0, .keep (.group hg .nil)⟩
  have hs : s.Spelling raw := .method (.refl (.ofName "A")) (.refl _) (.refl _) (.cons hx .nil) rfl
  have hlist : ¬NestedWithin Nesting.max ('x' :: bracketed (nested 2147483647)) := by
    have hone : Balanced ['x'] := balanced_singleton (by decide) (by decide)
    intro h
    exact not_nestedWithin_bracketed (by decide) ((nestedWithin_append hone).1 h).2
  have hraw : ¬NestedWithin Nesting.max raw := by
    intro h
    have howner : Counted ['A'] := .singleton (by decide) (by decide)
    have hmember : Counted ['m'] := .singleton (by decide) (by decide)
    exact hlist ((Signature.Spelling.nestedWithin_method_iff howner hmember hx.balanced rfl).1 h)
  refine ⟨by decide, by decide, hs, ?_⟩
  rw [Signature.parse, String.toList_ofList, hs.ofChars_of_not_nested hraw]

/-- Generic arguments with marks of every kind, white space, three dots, a descriptor and a slash at once. -/
theorem spellings_meet_for_generic_varargs :
    let raw := "\tLa$B; # m ( x/Y<K,<(#)>>[]... , int ) "
    let table : Table := ⟨[⟨.sdkLint, [⟨raw, [⟨.removed (some 30), none⟩]⟩]⟩], [], []⟩
    ∃ s d, s.text = "a.B#m(x.Y[][],int)" ∧ Signature.parse raw = .ok s ∧ Dataset.ofTable table none = .ok d ∧
      ∃ s', Signature.parse "a.B#m(x.Y[][],int)" = .ok s' ∧
        ⟨.exact s, .removed (some 30), .sdkLint, none⟩ ∈ d.lookupExact s' := by
  intro raw table
  let o : Owner := ⟨[⟨['a'], by decide⟩, ⟨['B'], by decide⟩], List.cons_ne_nil _ _⟩
  let t : TypeName := ⟨⟨[⟨['x'], by decide⟩, ⟨['Y'], by decide⟩], List.cons_ne_nil _ _⟩, 2⟩
  have hdollar : Respelled o.chars ['a', '$', 'B'] :=
    .cons (.inl rfl) (.cons (.inr ⟨rfl, .inr rfl⟩) (Respelled.refl ['B']))
  have ht : t.base.Spelling ['x', '/', 'Y'] :=
    .name (.cons (.inl rfl) (.cons (.inr ⟨rfl, .inl rfl⟩) (Respelled.refl ['Y'])))
  have hg : Balanced ['K', ',', '<', '(', '#', ')', '>'] := by decide
  have htype : t.Spelling [' ', 'x', '/', 'Y', '<', 'K', ',', '<', '(', '#', ')', '>', '>', '[', ']', '.', '.',
      '.', ' '] :=
    ⟨_, _, ht, .varargs 1, .blank rfl (.keep (.keep (.keep (.group hg (.keep (.keep (.keep (.keep (.keep
      (.blank rfl .nil))))))))))⟩
  have hint : (⟨.ofName "int", 0⟩ : TypeName).Spelling [' ', 'i', 'n', 't', ' '] :=
    ⟨_, _, .refl (.ofName "int"), .brackets 0, .blank rfl (.keep (.keep (.keep (.blank rfl .nil))))⟩
  let s : Signature := ⟨o, some (.method ⟨['m'], by decide⟩ [t, ⟨.ofName "int", 0⟩])⟩
  have hs := Signature.Spelling.method (n := ⟨['m'], by decide⟩) (.descriptor hdollar)
    ⟨['\t'], [' '], rfl, rfl, rfl⟩ ⟨[' '], [' '], rfl, rfl, rfl⟩ (.cons htype (.cons hint .nil))
    (rfl : isBlankText [' '] = true)
  obtain ⟨hcanonical, hcounted, hall⟩ := spellings_meet s
  obtain ⟨hparse, hpattern, -, hmeet⟩ := (hall _ hs).1 (nestedWithin_of_count_le (by decide))
  have hpattern : Pattern.parse raw = .ok (.exact s) := hpattern
  have hrecords : table.records? = some [⟨.exact s, .removed (some 30), .sdkLint, none⟩] := by
    simp only [table, Table.records?, Table.Group.records?, Table.Entry.records, List.mapM_cons, List.mapM_nil,
      hpattern]
    rfl
  have hload : Dataset.ofTable table none = .ok (Dataset.made none _ []) :=
    Dataset.ofTable_eq_ok.2 ⟨_, [], hrecords, List.nodup_singleton _, rfl, List.nodup_nil, rfl⟩
  exact ⟨s, _, rfl, hparse, hload, hmeet table none _ hload _ List.mem_cons_self _ List.mem_cons_self rfl _
    List.mem_cons_self _ hcanonical hcounted⟩

end ApiRules
