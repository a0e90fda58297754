import ApiRules.Signature.Order
import ApiRules.Signature.Parse

/-!
Patterns, the keys of rules: one signature, or every signature under an owner. The second is written
as the owner followed by `.*`.
-/
namespace ApiRules

open Text

inductive Pattern where
  | exact (signature : Signature)
  | under (owner : Owner)
  deriving DecidableEq

/-- Reads the owner of a pattern, with or without the trailing `.*`. -/
def Owner.parseUnder (text : String) : Except SignatureError Owner :=
  let cs := trim text.toList
  Owner.parse ((dropEnding? ['.', '*'] cs).getD cs)

namespace Pattern

def chars : Pattern → List Char
  | exact s => s.chars
  | under o => o.chars ++ ['.', '*']

/-- The canonical spelling. -/
def text (p : Pattern) : String := String.ofList p.chars

instance : ToString Pattern := ⟨text⟩

def isUnder : Pattern → Bool
  | exact _ => false
  | under _ => true

def parse (text : String) : Except SignatureError Pattern :=
  let cs := trim text.toList
  match dropEnding? ['.', '*'] cs with
  | some owner =>
    if '#' ∈ owner then exact <$> Signature.ofChars cs else under <$> Owner.parse owner
  | none => exact <$> Signature.ofChars cs

/-- The pattern of everything under an owner. -/
def ofOwner (text : String) : Except SignatureError Pattern := under <$> Owner.parseUnder text

/-- Exact patterns come first. -/
protected def compare : Pattern → Pattern → Ordering
  | exact a, exact b => a.compare b
  | exact _, under _ => .lt
  | under _, exact _ => .gt
  | under a, under b => a.compare b

end Pattern

end ApiRules
