import ApiRules.Pattern
import ApiRules.Proofs.Signature.Characters

/-!
Canonical spellings are read back as what they spell. Owners, member names and types come first, then
parameter lists, members and signatures, and at last patterns.
-/
namespace ApiRules

open Text

theorem mapM_ofChars?_chars (ss : List Segment) :
    (ss.map Segment.chars).mapM Segment.ofChars? = some ss := by
  induction ss with
  | nil => rfl
  | cons s ss ih => simp [Segment.ofChars?, s.isName_chars, ih]

namespace Owner

theorem unwrap_eq_self {cs : List Char} (h : ';' ∉ cs) : unwrap cs = cs := by
  unfold unwrap
  split
  · rename_i cs
    have hs : ';' ∉ cs := fun hm => h (List.mem_cons_of_mem 'L' hm)
    rw [dropEnding?_eq_none List.mem_cons_self hs, Option.getD_none]
  · rfl

theorem separator_of_mem {o : Owner} {c : Char} (h : c ∈ o.chars) : separator c = c := by
  have hs : ¬(c = '/' ∨ c = '$') := by
    rintro (rfl | rfl)
    · exact not_mem_chars (by decide) h
    · exact not_mem_chars (by decide) h
  rw [separator, if_neg hs]

theorem map_separator_chars (o : Owner) : o.chars.map separator = o.chars := by
  have hid : ∀ c ∈ o.chars, separator c = id c := fun c hc => separator_of_mem hc
  rw [List.map_congr_left hid, List.map_id]

theorem dot_not_mem_of_mem_segments {ss : List Segment} : ∀ p ∈ ss.map Segment.chars, '.' ∉ p := by
  intro p hp
  obtain ⟨s, -, rfl⟩ := List.mem_map.1 hp
  exact s.dot_not_mem_chars

theorem map_chars_segments_ne_nil (o : Owner) : o.segments.map Segment.chars ≠ [] := by
  simpa using o.segments_ne_nil

theorem splitOn_chars (o : Owner) : splitOn '.' o.chars = o.segments.map Segment.chars :=
  splitOn_joinWith o.map_chars_segments_ne_nil dot_not_mem_of_mem_segments

theorem ofChars?_eq_some {cs : List Char} {o : Owner} (h : (unwrap (trim cs)).map separator = o.chars) :
    ofChars? cs = some o := by
  rw [ofChars?, h, o.splitOn_chars, mapM_ofChars?_chars, Option.bind_eq_bind, Option.bind_some, ofSegments?,
    dif_pos o.segments_ne_nil]

theorem ofChars?_chars (o : Owner) : ofChars? o.chars = some o := by
  apply ofChars?_eq_some
  rw [trim_eq_self fun c hc => not_blank hc, unwrap_eq_self (not_mem_chars (by decide)), map_separator_chars]

theorem parse_chars (o : Owner) : parse o.chars = .ok o := by
  rw [parse, ofChars?_chars]

end Owner

namespace MemberName

theorem parse_chars (n : MemberName) : parse n.chars = .ok n := by
  have ht : trim n.chars = n.chars := trim_eq_self fun c hc => not_blank hc
  simp [parse, ht, n.isMemberName_chars]

end MemberName

namespace TypeName

theorem erase?_eq_some {cs : List Char}
    (h : ∀ c ∈ cs, isBlank c = false ∧ c ≠ '<' ∧ c ≠ '>') : erase? 0 cs = some cs := by
  induction cs with
  | nil => rfl
  | cons c cs ih =>
    obtain ⟨hb, hl, hr⟩ := h c List.mem_cons_self
    rw [erase?_cons hb (Nesting.next?_other (Int32.le_refl 0) hl hr), ih fun d hd => h d (List.mem_cons_of_mem c hd)]
    simp [hl, hr]

theorem erase?_chars (t : TypeName) : erase? 0 t.chars = some t.chars := by
  refine erase?_eq_some fun c hc => ⟨not_blank hc, ?_, ?_⟩
  · rintro rfl
    exact not_mem_chars (by decide) hc
  · rintro rfl
    exact not_mem_chars (by decide) hc

theorem peelBrackets_eq_zero {cs : List Char} (h : ']' ∉ cs) : peelBrackets cs = (0, cs) := by
  unfold peelBrackets
  split
  · exact absurd List.mem_cons_self h
  · rfl

theorem peelBrackets_replicate (n : Nat) (cs : List Char) :
    peelBrackets ((List.replicate n [']', '[']).flatten ++ cs) =
      ((peelBrackets cs).1 + n, (peelBrackets cs).2) := by
  induction n with
  | zero => rfl
  | succ n ih =>
    rw [List.replicate_succ, List.flatten_cons, List.append_assoc, List.cons_append, List.cons_append,
      List.nil_append, peelBrackets, ih]
    rfl

/-- The dimensions as they are written at the end of a canonical spelling. -/
def brackets (n : Nat) : List Char := (List.replicate n ['[', ']']).flatten

theorem reverse_brackets (n : Nat) : (brackets n).reverse = (List.replicate n [']', '[']).flatten := by
  rw [brackets, List.reverse_flatten, List.map_replicate, List.reverse_replicate]
  rfl

variable {name : List Char}

theorem peelBrackets_reverse (hb : ']' ∉ name) (n : Nat) :
    peelBrackets (name ++ brackets n).reverse = (n, name.reverse) := by
  have hb : ']' ∉ name.reverse := mt List.mem_reverse.1 hb
  rw [List.reverse_append, reverse_brackets, peelBrackets_replicate, peelBrackets_eq_zero hb, Nat.zero_add]

theorem peel_brackets (hb : ']' ∉ name) (hd : name.getLast? ≠ some '.') (n : Nat) :
    peel (name ++ brackets n) = (n, name) := by
  have hrev : ∀ rest, (name ++ brackets n).reverse ≠ '.' :: rest := by
    intro rest he
    rw [List.reverse_append, reverse_brackets] at he
    cases n with
    | zero =>
      -- without brackets the last character belongs to the name
      rw [List.replicate_zero, List.flatten_nil, List.nil_append] at he
      rw [← List.head?_reverse, he] at hd
      exact hd rfl
    | succ n =>
      rw [List.replicate_succ] at he
      simp at he
  rw [peel]
  split
  · rename_i rest he
    exact absurd he (hrev _)
  · rw [peelBrackets_reverse hb, List.reverse_reverse]

theorem peel_varargs (hb : ']' ∉ name) (n : Nat) :
    peel (name ++ (brackets n ++ ['.', '.', '.'])) = (n + 1, name) := by
  have hrev : (name ++ (brackets n ++ ['.', '.', '.'])).reverse =
      '.' :: '.' :: '.' :: (name ++ brackets n).reverse := by
    rw [← List.append_assoc]
    exact List.reverse_append
  rw [peel, hrev]
  simp only [peelBrackets_reverse hb, List.reverse_reverse]

theorem peel_chars (t : TypeName) : peel t.chars = (t.dimensions, t.base.chars) :=
  peel_brackets (Owner.not_mem_chars (by decide)) t.base.getLast?_chars_ne_dot t.dimensions

theorem parse_chars (t : TypeName) : parse t.chars = .ok t := by
  have ho : ofSource? t.chars = some t := by
    simp [ofSource?, erase?_chars, peel_chars, Owner.ofChars?_chars]
  rw [parse, ho]

theorem mapM_parse_chars (ts : List TypeName) : (ts.map chars).mapM parse = .ok ts := by
  induction ts with
  | nil => rfl
  | cons t ts ih =>
    rw [List.map_cons, List.mapM_cons, parse_chars, ih]
    rfl

end TypeName

theorem splitParams?_ne_nil {depth : Int32} {cs : List Char} : splitParams? depth cs ≠ some [] := by
  intro h
  cases cs with
  | nil => simp [splitParams?] at h
  | cons c cs =>
    simp only [splitParams?] at h
    split at h
    · simp at h
    · split at h
      · cases h
      · obtain ⟨parts, -, hp⟩ := Option.map_eq_some_iff.1 h
        cases parts <;> cases hp

/-- A part that is not split is the first one wherever a comma follows it. -/
theorem splitParams?_append {depth : Int32} {p rest : List Char} (h : splitParams? depth p = some [p]) :
    splitParams? depth (p ++ ',' :: rest) = (splitParams? 0 rest).map (p :: ·) := by
  induction p generalizing depth with
  | nil =>
    have hd : depth = 0 := by simpa [splitParams?] using h
    simp [hd, splitParams?]
  | cons c p ih =>
    simp only [splitParams?] at h
    split at h
    · simp at h
    next hcomma =>
      split at h
      · cases h
      next next hnext =>
        obtain ⟨parts, hs, hp⟩ := Option.map_eq_some_iff.1 h
        cases parts with
        | nil => exact absurd hs splitParams?_ne_nil
        | cons part parts =>
          simp only [extendFirst, List.cons.injEq, true_and] at hp
          obtain ⟨rfl, rfl⟩ := hp
          rw [List.cons_append, splitParams?_cons hcomma hnext, ih hs, Option.map_map]
          rfl

theorem splitParams?_of_plain {p : List Char} (h : ∀ c ∈ p, c ≠ '<' ∧ c ≠ '>' ∧ c ≠ ',') :
    splitParams? 0 p = some [p] := by
  induction p with
  | nil => rfl
  | cons c p ih =>
    obtain ⟨hl, hr, hc⟩ := h c List.mem_cons_self
    have hcomma : ¬(c = ',' ∧ (0 : Int32) = 0) := fun h => hc h.1
    rw [splitParams?_cons hcomma (Nesting.next?_other (Int32.le_refl 0) hl hr),
      ih fun d hd => h d (List.mem_cons_of_mem c hd)]
    rfl

theorem splitParams?_joinWith {ps : List (List Char)} (hne : ps ≠ [])
    (h : ∀ p ∈ ps, splitParams? 0 p = some [p]) : splitParams? 0 (joinWith ',' ps) = some ps := by
  induction ps with
  | nil => exact absurd rfl hne
  | cons p ps ih =>
    have hp := h p List.mem_cons_self
    cases ps with
    | nil => exact hp
    | cons q ps =>
      rw [joinWith, splitParams?_append hp, ih (List.cons_ne_nil q ps) fun x hx =>
        h x (List.mem_cons_of_mem p hx), Option.map_some]
      exact List.cons_ne_nil q ps

theorem sourceParams_joinWith {ps : List (List Char)}
    (h : ∀ p ∈ ps, splitParams? 0 p = some [p] ∧ isBlankText p = false) (whole : List Char) :
    sourceParams (joinWith ',' ps) whole = .ok ps := by
  cases ps with
  | nil => rfl
  | cons p ps =>
    have hb : isBlankText (joinWith ',' (p :: ps)) = false := by
      obtain ⟨c, hc, hn⟩ := List.all_eq_false.1 (h p List.mem_cons_self).2
      refine isBlankText_eq_false (c := c) ?_ (by simpa using hn)
      cases ps with
      | nil => exact hc
      | cons q ps => exact List.mem_append_left _ hc
    have hs := splitParams?_joinWith (List.cons_ne_nil p ps) fun q hq => (h q hq).1
    rw [sourceParams, hb, hs]
    rfl

theorem sourceParams_chars (ts : List TypeName) (whole : List Char) :
    sourceParams (joinWith ',' (ts.map TypeName.chars)) whole = .ok (ts.map TypeName.chars) := by
  refine sourceParams_joinWith (fun p hp => ?_) whole
  obtain ⟨t, -, rfl⟩ := List.mem_map.1 hp
  refine ⟨splitParams?_of_plain fun c hc => ⟨?_, ?_, ?_⟩, ?_⟩
  · rintro rfl
    exact TypeName.not_mem_chars (by decide) hc
  · rintro rfl
    exact TypeName.not_mem_chars (by decide) hc
  · rintro rfl
    exact TypeName.not_mem_chars (by decide) hc
  · obtain ⟨c, hc⟩ := List.exists_mem_of_ne_nil _ t.chars_ne_nil
    exact isBlankText_eq_false hc (TypeName.not_blank hc)

namespace Member

theorem parse_chars (m : Member) (whole : List Char) : parse m.chars whole = .ok m := by
  cases m with
  | field n =>
    have hc : cut? '(' n.chars = none := cut?_eq_none (MemberName.not_mem_chars (by decide))
    simp only [chars, parse, hc, MemberName.parse_chars]
    rfl
  | method n ts =>
    have hc : cut? '(' (chars (method n ts)) =
        some (n.chars, joinWith ',' (ts.map TypeName.chars) ++ [')']) := by
      rw [chars, List.append_assoc]
      exact cut?_append (MemberName.not_mem_chars (by decide))
    have hl : cutLast? ')' (joinWith ',' (ts.map TypeName.chars) ++ [')']) =
        some (joinWith ',' (ts.map TypeName.chars), []) :=
      cutLast?_append List.not_mem_nil
    simp only [parse, hc, hl, MemberName.parse_chars, sourceParams_chars]
    change (do return method n (← (ts.map TypeName.chars).mapM TypeName.parse)) = _
    rw [TypeName.mapM_parse_chars]
    rfl

end Member

namespace Signature

theorem ofChars_chars (s : Signature) : ofChars s.chars = .ok s := by
  have ht : trim s.chars = s.chars := trim_eq_self fun c hc => not_blank hc
  have ho : '#' ∉ s.owner.chars := Owner.not_mem_chars (by decide)
  rw [ofChars]
  rw [ht, if_neg s.chars_ne_nil]
  obtain ⟨o, member⟩ := s
  cases member with
  | none =>
    simp only [chars, cut?_eq_none ho, Owner.parse_chars]
    rfl
  | some m =>
    have hm : trim m.chars = m.chars := trim_eq_self fun c hc => Member.not_blank hc
    simp only [chars, cut?_append ho, Owner.parse_chars, hm, Member.parse_chars]
    rfl

theorem parse_text (s : Signature) : parse s.text = .ok s := by
  rw [parse, text, String.toList_ofList, ofChars_chars]

theorem text_injective : Function.Injective text := by
  intro s s' h
  have hp := congrArg parse h
  rw [parse_text, parse_text] at hp
  exact Except.ok.inj hp

/-- The canonical spelling of what a text spells. -/
def normalize (raw : String) : Except SignatureError String := text <$> parse raw

theorem normalize_normalize (raw : String) : (normalize raw >>= normalize) = normalize raw := by
  rw [normalize]
  cases parse raw with
  | error e => rfl
  | ok s => exact congrArg (text <$> ·) (parse_text s)

end Signature

namespace Pattern

theorem trim_chars (p : Pattern) : trim p.chars = p.chars := by
  apply trim_eq_self
  intro c hc
  cases p with
  | exact s => exact Signature.not_blank hc
  | under o =>
    obtain h | h := List.mem_append.1 hc
    · exact Owner.not_blank h
    · have hmarks : NameOr ['.', '*'] c := .inr h
      exact hmarks.not_blank (by decide)

theorem parse_text (p : Pattern) : parse p.text = .ok p := by
  rw [parse, text, String.toList_ofList, trim_chars]
  cases p with
  | exact s =>
    have hd : dropEnding? ['.', '*'] s.chars = none :=
      dropEnding?_eq_none (c := '*') (by decide) (Signature.not_mem_chars (by decide))
    simp only [chars, hd, Signature.ofChars_chars]
    rfl
  | under o =>
    have hn : '#' ∉ o.chars := Owner.not_mem_chars (by decide)
    simp only [chars, dropEnding?_append, if_neg hn, Owner.parse_chars]
    rfl

theorem text_injective : Function.Injective text := by
  intro p p' h
  have hp := congrArg parse h
  rw [parse_text, parse_text] at hp
  exact Except.ok.inj hp

/-- The canonical spelling of what a text spells. -/
def normalize (raw : String) : Except SignatureError String := text <$> parse raw

theorem normalize_normalize (raw : String) : (normalize raw >>= normalize) = normalize raw := by
  rw [normalize]
  cases parse raw with
  | error e => rfl
  | ok p => exact congrArg (text <$> ·) (parse_text p)

end Pattern

/-- A canonical spelling spells the one value that it was written from, so that normal forms stay as they
are and no two signatures or patterns share one. -/
theorem canonical_text_faithful :
    (∀ s : Signature, Signature.parse s.text = .ok s) ∧
    (∀ p : Pattern, Pattern.parse p.text = .ok p) ∧
    (∀ raw, (Signature.normalize raw >>= Signature.normalize) = Signature.normalize raw) ∧
    (∀ raw, (Pattern.normalize raw >>= Pattern.normalize) = Pattern.normalize raw) ∧
    Function.Injective Signature.text ∧ Function.Injective Pattern.text ∧
    ∀ s o, (Pattern.exact s).text ≠ (Pattern.under o).text := by
  refine ⟨Signature.parse_text, Pattern.parse_text, Signature.normalize_normalize,
    Pattern.normalize_normalize, Signature.text_injective, Pattern.text_injective, fun s o h => ?_⟩
  exact Pattern.noConfusion (Pattern.text_injective h)

end ApiRules
