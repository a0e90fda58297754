import ApiRules.Proofs.Results
import ApiRules.Proofs.Signature.Order
import ApiRules.Proofs.Signature.Parts

/-!
Method descriptors. A text of descriptors has one reading, and the method that it describes is the one with the
same types in source spelling.
-/
namespace ApiRules.Descriptor

open Text

variable {cs d rest : List Char} {o : Owner} {t : TypeName} {ts : List TypeName}

/-- The letters of the primitive types, with the names of these types in source. -/
def primitives : List (Char × String) :=
  [('B', "byte"), ('C', "char"), ('D', "double"), ('F', "float"), ('I', "int"), ('J', "long"), ('S', "short"),
    ('Z', "boolean")]

/-- The descriptors without dimensions: the letter of a primitive type, or `Lname;`. -/
inductive DenotesBase : List Char → Owner → Prop where
  | primitive {letter : Char} {o : Owner} (h : (letter, o.text) ∈ primitives) : DenotesBase [letter] o
  | object {name : List Char} {o : Owner} (hs : ';' ∉ name) (ho : Owner.ofChars? name = some o) :
      DenotesBase ('L' :: (name ++ [';'])) o

/-- The descriptors: one without dimensions behind any number of `[`. -/
inductive Denotes : List Char → TypeName → Prop where
  | base {d : List Char} {o : Owner} (h : DenotesBase d o) : Denotes d ⟨o, 0⟩
  | array {d : List Char} {t : TypeName} (h : Denotes d t) : Denotes ('[' :: d) ⟨t.base, t.dimensions + 1⟩

/-- The descriptors of a result: `V` or one type. -/
def DenotesResult (cs : List Char) : Prop := cs = ['V'] ∨ ∃ t, Denotes cs t

theorem primitive?_of_mem : ∀ p ∈ primitives, (primitive? p.1).map Owner.text = some p.2 := by
  decide

theorem primitive?_eq_some_iff {c : Char} : primitive? c = some o ↔ (c, o.text) ∈ primitives := by
  constructor
  · intro h
    unfold primitive? at h
    split at h
    case h_9 => cases h
    all_goals
      rw [← Option.some.inj h]
      decide
  · intro h
    obtain ⟨o', ho', ht⟩ := Option.map_eq_some_iff.1 (primitive?_of_mem _ h)
    rw [← Owner.chars_injective (String.ofList_injective ht)]
    exact ho'

theorem base?_eq_some_iff : base? cs = some (o, rest) ↔ ∃ d, DenotesBase d o ∧ cs = d ++ rest := by
  constructor
  · intro h
    unfold base? at h
    split at h
    · cases h
    · simp only [Option.bind_eq_bind, Option.bind_eq_some_iff, Option.pure_def, Option.some.injEq] at h
      obtain ⟨⟨name, back⟩, hc, o', ho, he⟩ := h
      obtain ⟨rfl, rfl⟩ := Prod.mk.inj he
      obtain ⟨rfl, hs⟩ := cut?_eq_some.1 hc
      exact ⟨_, .object hs ho, by simp⟩
    · obtain ⟨o', ho, he⟩ := Option.map_eq_some_iff.1 h
      obtain ⟨rfl, rfl⟩ := Prod.mk.inj he
      exact ⟨_, .primitive (primitive?_eq_some_iff.1 ho), rfl⟩
  · rintro ⟨d, hd, rfl⟩
    cases hd with
    | primitive h =>
      rename_i letter
      have hl : letter ≠ 'L' := by
        rintro rfl
        revert h
        simp [primitives]
      rw [List.singleton_append, base?.eq_3 _ _ hl, primitive?_eq_some_iff.2 h]
      rfl
    | object hs ho =>
      rename_i name
      have hc : cut? ';' (name ++ ';' :: rest) = some (name, rest) := cut?_append hs
      simp [base?, hc, ho]

theorem type?_of_base? (h : base? cs = some (o, rest)) : type? cs = some (⟨o, 0⟩, rest) := by
  unfold type?
  split
  · cases h
  · rw [h]
    rfl

theorem type?_eq_some_iff : type? cs = some (t, rest) ↔ ∃ d, Denotes d t ∧ cs = d ++ rest := by
  constructor
  · intro h
    fun_induction type? cs generalizing t with
    | case1 cs ih =>
      obtain ⟨⟨t', back⟩, h', he⟩ := Option.map_eq_some_iff.1 h
      obtain ⟨rfl, rfl⟩ := Prod.mk.inj he
      obtain ⟨d, hd, rfl⟩ := ih h'
      exact ⟨_, .array hd, rfl⟩
    | case2 cs =>
      obtain ⟨⟨o, back⟩, h', he⟩ := Option.map_eq_some_iff.1 h
      obtain ⟨rfl, rfl⟩ := Prod.mk.inj he
      obtain ⟨d, hd, rfl⟩ := base?_eq_some_iff.1 h'
      exact ⟨d, .base hd, rfl⟩
  · rintro ⟨d, hd, rfl⟩
    induction hd with
    | base h => exact type?_of_base? (base?_eq_some_iff.2 ⟨_, h, rfl⟩)
    | array h ih => rw [List.cons_append, type?, ih, Option.map_some]

theorem types?_of_type? (h : type? cs = some (t, rest)) : types? cs = (types? rest).map (t :: ·) := by
  rw [types?]
  split
  · rename_i hcs
    rw [hcs] at h
    cases h
  · split
    · rename_i hn
      rw [h] at hn
      cases hn
    · rename_i hs
      rw [h] at hs
      obtain ⟨rfl, rfl⟩ := Prod.mk.inj (Option.some.inj hs)
      rfl

theorem types?_eq_some_iff : types? cs = some ts ↔ ∃ ds, List.Forall₂ Denotes ds ts ∧ cs = ds.flatten := by
  constructor
  · intro h
    fun_induction types? cs generalizing ts with
    | case1 =>
      obtain rfl := Option.some.inj h
      exact ⟨[], .nil, rfl⟩
    | case2 => cases h
    | case3 cs _ t rest ht ih =>
      obtain ⟨ts', hts, rfl⟩ := Option.map_eq_some_iff.1 h
      obtain ⟨d, hd, rfl⟩ := type?_eq_some_iff.1 ht
      obtain ⟨ds, hds, rfl⟩ := ih hts
      exact ⟨d :: ds, .cons hd hds, rfl⟩
  · rintro ⟨ds, hds, rfl⟩
    induction hds with
    | nil => simp [types?]
    | cons hd _ ih =>
      rw [List.flatten_cons, types?_of_type? (type?_eq_some_iff.2 ⟨_, hd, rfl⟩), ih, Option.map_some]

theorem isResult_iff : isResult cs = true ↔ DenotesResult cs := by
  rw [isResult, Bool.or_eq_true, beq_iff_eq, Option.any_eq_true]
  refine or_congr_right ⟨?_, ?_⟩
  · rintro ⟨⟨t, rest⟩, ht, hr⟩
    obtain rfl := List.isEmpty_iff.1 hr
    obtain ⟨d, hd, rfl⟩ := type?_eq_some_iff.1 ht
    rw [List.append_nil]
    exact ⟨t, hd⟩
  · rintro ⟨t, hd⟩
    exact ⟨(t, []), type?_eq_some_iff.2 ⟨cs, hd, (List.append_nil cs).symm⟩, rfl⟩

/-- No descriptor begins another one. -/
theorem Denotes.eq_of_append {d' rest' : List Char} {t' : TypeName} (h : Denotes d t) (h' : Denotes d' t')
    (he : d ++ rest = d' ++ rest') : d = d' ∧ t = t' ∧ rest = rest' := by
  have ht : type? (d ++ rest) = some (t, rest) := type?_eq_some_iff.2 ⟨d, h, rfl⟩
  rw [type?_eq_some_iff.2 ⟨d', h', he⟩] at ht
  obtain ⟨rfl, rfl⟩ := Prod.mk.inj (Option.some.inj ht)
  exact ⟨List.append_cancel_right he, rfl, rfl⟩

theorem Denotes.ne_nil (h : Denotes d t) : d ≠ [] := by
  rintro rfl
  have hl := length_type? (type?_eq_some_iff.2 ⟨[], h, rfl⟩ : type? [] = some (t, []))
  exact Nat.lt_irrefl _ hl

/-- Descriptors one after another can be told apart in one way. -/
theorem eq_of_flatten_eq {ds ds' : List (List Char)} {ts' : List TypeName} (h : List.Forall₂ Denotes ds ts)
    (h' : List.Forall₂ Denotes ds' ts') (he : ds.flatten = ds'.flatten) : ds = ds' ∧ ts = ts' := by
  induction h generalizing ds' ts' with
  | nil =>
    cases h' with
    | nil => exact ⟨rfl, rfl⟩
    | cons hd _ => exact absurd (List.append_eq_nil_iff.1 he.symm).1 hd.ne_nil
  | cons hd _ ih =>
    cases h' with
    | nil => exact absurd (List.append_eq_nil_iff.1 he).1 hd.ne_nil
    | cons hd' hds' =>
      obtain ⟨rfl, rfl, hrest⟩ := hd.eq_of_append hd' he
      obtain ⟨rfl, rfl⟩ := ih hds' hrest
      exact ⟨rfl, rfl⟩

theorem params_eq_ok_iff {inner result : List Char} : params inner result = .ok ts ↔
    DenotesResult result ∧ ∃ ds, List.Forall₂ Denotes ds ts ∧ inner = ds.flatten := by
  rw [← isResult_iff, ← types?_eq_some_iff, params]
  cases isResult result with
  | false => simp
  | true => cases types? inner <;> simp

theorem params_of_not_result {inner result : List Char} (h : ¬DenotesResult result) :
    params inner result = .error (.invalidDescriptor (String.ofList result)) := by
  rw [params, if_neg (mt isResult_iff.1 h)]

theorem params_of_not_types {inner result : List Char} (hr : DenotesResult result)
    (h : ∀ ds ts, List.Forall₂ Denotes ds ts → inner ≠ ds.flatten) :
    params inner result = .error (.invalidDescriptor (String.ofList inner)) := by
  have ht : types? inner = none := by
    refine Option.eq_none_iff_forall_ne_some.2 fun ts hts => ?_
    obtain ⟨ds, hds, he⟩ := types?_eq_some_iff.1 hts
    exact h ds ts hds he
  rw [params, if_pos (isResult_iff.2 hr), ht]

section
variable {owner name inner result : List Char} {n : MemberName}

/-- What the text `owner#name(inner)tail` spells. -/
def readMethod (owner name inner tail : List Char) : Except SignatureError Signature :=
  Signature.parse (String.ofList (owner ++ '#' :: methodChars name inner tail))

theorem readMethod_eq {tail : List Char} (ho : Owner.parse owner = .ok o) (hn : MemberName.parse name = .ok n)
    (hc : ')' ∉ tail) : readMethod owner name inner tail =
      (fun ts => ⟨o, some (.method n ts)⟩) <$>
        readParams inner tail (trim (owner ++ '#' :: methodChars name inner tail)) := by
  rw [readMethod, Signature.parse, String.toList_ofList, Signature.ofChars_method ho hn hc]

/-- A method with a descriptor is accepted if what stands in the parentheses is a sequence of descriptors and what
follows them describes a result. The sequence can be told apart in one way only, and the method is the one with
the same types in source spelling. A text that is no such descriptor is blamed for it. -/
theorem method_of_descriptor (ho : Owner.parse owner = .ok o) (hn : MemberName.parse name = .ok n)
    (hb : isBlankText result = false) (hc : ')' ∉ result) :
    ((∃ s, readMethod owner name inner result = .ok s) ↔
      (∃ ds ts, List.Forall₂ Denotes ds ts ∧ inner = ds.flatten) ∧ DenotesResult (trim result)) ∧
    (∀ ds ts, List.Forall₂ Denotes ds ts → inner = ds.flatten →
      (∀ ds' ts', List.Forall₂ Denotes ds' ts' → inner = ds'.flatten → ds = ds' ∧ ts = ts') ∧
      (DenotesResult (trim result) → readMethod owner name inner result = .ok ⟨o, some (.method n ts)⟩ ∧
        readMethod owner name inner result =
          readMethod owner name (joinWith ',' (ts.map TypeName.chars)) [])) ∧
    (¬DenotesResult (trim result) → readMethod owner name inner result =
      .error (.invalidDescriptor (String.ofList (trim result)))) ∧
    (DenotesResult (trim result) → (∀ ds ts, List.Forall₂ Denotes ds ts → inner ≠ ds.flatten) →
      readMethod owner name inner result = .error (.invalidDescriptor (String.ofList inner))) := by
  have hread : readMethod owner name inner result =
      (fun ts => ⟨o, some (.method n ts)⟩) <$> params inner (trim result) := by
    rw [readMethod_eq ho hn hc, readParams, if_neg (Bool.eq_false_iff.1 hb)]
  rw [hread]
  refine ⟨?_, fun ds ts hds hi => ⟨fun ds' ts' hds' hi' => eq_of_flatten_eq hds hds' (hi ▸ hi'), ?_⟩,
    fun hr => ?_, fun hr ht => ?_⟩
  · simp only [map_eq_ok_iff, params_eq_ok_iff]
    constructor
    · rintro ⟨s, ts, ⟨hr, ds, hds, hi⟩, -⟩
      exact ⟨⟨ds, ts, hds, hi⟩, hr⟩
    · rintro ⟨⟨ds, ts, hds, hi⟩, hr⟩
      exact ⟨_, ts, ⟨hr, ds, hds, hi⟩, rfl⟩
  · intro hr
    rw [params_eq_ok_iff.2 ⟨hr, ds, hds, hi⟩, readMethod_eq ho hn List.not_mem_nil, readParams_chars]
    exact ⟨rfl, rfl⟩
  · rw [params_of_not_result hr]
    rfl
  · rw [params_of_not_types hr ht]
    rfl

theorem method_of_int_array_and_class :
    (∃ s, readMethod ['L', 'a', '/', 'B', ';'] ['m'] ['[', 'I', 'L', 'C', ';'] ['V', ' '] = .ok s) ∧
    readMethod ['L', 'a', '/', 'B', ';'] ['m'] ['[', 'I', 'L', 'C', ';'] ['V', ' '] =
      readMethod ['L', 'a', '/', 'B', ';'] ['m'] ['i', 'n', 't', '[', ']', ',', 'C'] [] := by
  have ho : Owner.parse ['L', 'a', '/', 'B', ';'] =
      .ok ⟨[⟨['a'], by decide⟩, ⟨['B'], by decide⟩], List.cons_ne_nil _ _⟩ := rfl
  have hn : MemberName.parse ['m'] = .ok ⟨['m'], by decide⟩ := rfl
  have hint : Denotes ['[', 'I'] ⟨.ofName "int", 1⟩ := .array (.base (.primitive (by decide)))
  have hclass : Denotes ['L', 'C', ';'] ⟨.ofName "C", 0⟩ := .base (@DenotesBase.object ['C'] _ (by decide) rfl)
  have hds : List.Forall₂ Denotes [['[', 'I'], ['L', 'C', ';']] [⟨.ofName "int", 1⟩, ⟨.ofName "C", 0⟩] :=
    .cons hint (.cons hclass .nil)
  have hr : DenotesResult (trim ['V', ' ']) := .inl rfl
  have hb : isBlankText ['V', ' '] = false := by decide
  obtain ⟨haccepted, hsame, -⟩ := method_of_descriptor ho hn hb (by decide)
  exact ⟨haccepted.2 ⟨⟨_, _, hds, rfl⟩, hr⟩, ((hsame _ _ hds rfl).2 hr).2⟩

end

end ApiRules.Descriptor
