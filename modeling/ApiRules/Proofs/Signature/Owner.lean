import ApiRules.Pattern
import ApiRules.Proofs.Results
import ApiRules.Proofs.Sequences
import ApiRules.Proofs.Text.Trim

/-!
Spellings of owners where a pattern is meant. With or without `.*` behind it, a spelling stands for the owner
that it spells by itself.
-/
namespace ApiRules.Owner

open Text

theorem isName_of_mapM {ps : List (List Char)} {ss : List Segment}
    (h : ps.mapM Segment.ofChars? = some ss) {p : List Char} (hp : p ∈ ps) : isName p = true := by
  obtain ⟨s, hs⟩ := Sequences.exists_of_mapM h hp
  rw [Segment.ofChars?] at hs
  split at hs
  · assumption
  · cases hs

theorem mem_unwrap {cs : List Char} {c : Char} (h : c ∈ cs) (hc : c ∉ ['L', ';']) : c ∈ unwrap cs := by
  unfold unwrap
  split
  · rename_i cs
    cases hd : dropEnding? [';'] cs with
    | none => exact h
    | some name =>
      rw [dropEnding?_eq_some.1 hd] at h
      simp only [List.mem_cons, List.mem_append, List.not_mem_nil, or_false, not_or] at h hc
      exact (h.resolve_left hc.1).resolve_right hc.2
  · exact h

/-- A character that neither stands in names nor marks anything in the spelling of an owner. -/
theorem not_mem_of_ofChars? {cs : List Char} {o : Owner} (h : ofChars? cs = some o) {c : Char}
    (hb : isBlank c = false) (hm : c ∉ ['L', ';', '.']) (hs : separator c = c) (hn : isNameChar c = false) :
    c ∉ cs := by
  intro hc
  obtain ⟨ss, hss, -⟩ := Option.bind_eq_some_iff.1 h
  have hmap : c ∈ (unwrap (trim cs)).map separator :=
    List.mem_map.2 ⟨c, mem_unwrap (mem_trim hc hb) fun hl => hm (List.mem_append_left ['.'] hl), hs⟩
  have hdot : c ≠ '.' := fun hd => hm (by simp [hd])
  obtain ⟨p, hp, hc⟩ := mem_splitOn hmap hdot
  have hname := isName_of_mapM hss hp
  simp only [isName, Bool.and_eq_true, List.all_eq_true] at hname
  rw [hname.2 c hc] at hn
  cases hn

theorem hash_not_mem_of_ofChars? {cs : List Char} {o : Owner} (h : ofChars? cs = some o) : '#' ∉ cs :=
  not_mem_of_ofChars? h (by decide) (by decide) (by decide) (by decide)

theorem comma_not_mem_of_ofChars? {cs : List Char} {o : Owner} (h : ofChars? cs = some o) : ',' ∉ cs :=
  not_mem_of_ofChars? h (by decide) (by decide) (by decide) (by decide)

theorem hash_not_mem_of_parse {cs : List Char} {o : Owner} (h : parse cs = .ok o) : '#' ∉ cs := by
  rw [parse] at h
  split at h
  · exact hash_not_mem_of_ofChars? ‹_›
  · cases h

theorem parse_congr {cs ds : List Char} (h : trim cs = trim ds) : parse cs = parse ds := by
  rw [parse, parse, ofChars?, ofChars?, h]

theorem parse_trimLeft (cs : List Char) : parse (trimLeft cs) = parse cs := parse_congr (trim_trimLeft cs)

theorem ofClass_eq_error {cs : List Char} {e : SignatureError} :
    Signature.ofClass (String.ofList cs) = .error e ↔ parse cs = .error e := by
  rw [Signature.ofClass, String.toList_ofList]
  exact map_eq_error_iff

/-- With `.*` behind it, the spelling of an owner is the pattern of everything under this owner. -/
theorem parse_eq_under {cs : List Char} {o : Owner} :
    Pattern.parse (String.ofList (cs ++ ['.', '*'])) = .ok (.under o) ↔ parse cs = .ok o := by
  have hblank : ∀ c ∈ ['.', '*'], isBlank c = false :=
    List.forall_mem_cons.2 ⟨rfl, List.forall_mem_singleton.2 rfl⟩
  have ht : trim (cs ++ ['.', '*']) = trimLeft cs ++ ['.', '*'] := trim_append (List.cons_ne_nil _ _) hblank
  rw [Pattern.parse, String.toList_ofList, ht, ← parse_trimLeft cs]
  simp only [dropEnding?_append]
  split
  · rename_i hm
    rw [map_eq_ok_iff]
    constructor
    · rintro ⟨s, -, h⟩
      cases h
    · intro h
      exact absurd hm (hash_not_mem_of_parse h)
  · rw [map_eq_ok_iff]
    constructor
    · rintro ⟨q, hq, h⟩
      cases h
      exact hq
    · intro h
      exact ⟨o, h, rfl⟩

/-- The spelling of an owner without white space around it and without the `.*` that may end it. -/
def underName (text : String) : List Char :=
  (dropEnding? ['.', '*'] (trim text.toList)).getD (trim text.toList)

theorem parseUnder_eq (text : String) : parseUnder text = parse (underName text) := rfl

end ApiRules.Owner
