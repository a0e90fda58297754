import ApiRules.Signature.Nesting
import ApiRules.Signature.Owner

/-!
Parameter types: a name and a number of array dimensions. Source spellings may carry white space,
generic arguments and a varargs mark, none of which is kept.
-/
namespace ApiRules

open Text

structure TypeName where
  base : Owner
  dimensions : Nat
  deriving DecidableEq

namespace TypeName

/-- The canonical spelling: the name, then a pair of brackets for each dimension. -/
def chars (t : TypeName) : List Char :=
  t.base.chars ++ (List.replicate t.dimensions ['[', ']']).flatten

def text (t : TypeName) : String := String.ofList t.chars

/-- Leaves out white space and what stands in angle brackets, `depth` of them being open. There is
no such text when the brackets do not balance, or when too many are open to count them. -/
def erase? (depth : Int32) : List Char → Option (List Char)
  | [] => if depth = 0 then some [] else none
  | c :: cs =>
    if isBlank c then erase? depth cs
    else match Nesting.next? depth c with
      | none => none
      | some next =>
        if c = '<' ∨ c = '>' ∨ depth ≠ 0 then erase? next cs
        else (erase? next cs).map (c :: ·)

theorem erase?_cons {depth next : Int32} {c : Char} (hb : isBlank c = false)
    (hnext : Nesting.next? depth c = some next) (cs : List Char) :
    erase? depth (c :: cs) =
      if c = '<' ∨ c = '>' ∨ depth ≠ 0 then erase? next cs else (erase? next cs).map (c :: ·) := by
  rw [erase?, hb, hnext]
  rfl

/-- Counts and removes the bracket pairs at the end of a reversed text. -/
def peelBrackets : List Char → Nat × List Char
  | ']' :: '[' :: cs => ((peelBrackets cs).1 + 1, (peelBrackets cs).2)
  | cs => (0, cs)

/-- The dimensions written at the end of a text, and the text without them; three dots at the very
end are one dimension. -/
def peel (cs : List Char) : Nat × List Char :=
  match cs.reverse with
  | '.' :: '.' :: '.' :: rest => ((peelBrackets rest).1 + 1, (peelBrackets rest).2.reverse)
  | rest => ((peelBrackets rest).1, (peelBrackets rest).2.reverse)

/-- Reads a type as it is written in source. -/
def ofSource? (raw : List Char) : Option TypeName := do
  let plain ← erase? 0 raw
  let base ← Owner.ofChars? (peel plain).2
  return ⟨base, (peel plain).1⟩

def parse (raw : List Char) : Except SignatureError TypeName :=
  match ofSource? raw with
  | some t => .ok t
  | none => .error (.invalidType (String.ofList (trim raw)))

/-- Types are ordered by their spelling. -/
protected def compare (a b : TypeName) : Ordering := compare a.chars b.chars

end TypeName

end ApiRules
