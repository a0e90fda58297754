import ApiRules.Signature.Error
import ApiRules.Text.Alphanumeric
import ApiRules.Text.Blank
import ApiRules.Text.Cut

/-!
Owners: dotted names of classes and packages. An owner is its list of segments, so the packages
around it are the leading runs of that list.
-/
namespace ApiRules

open Text

def isNameChar (c : Char) : Bool := isAlphanumeric c || c == '_'

def isName (cs : List Char) : Bool := !cs.isEmpty && cs.all isNameChar

/-- One name of a dotted name. -/
structure Segment where
  chars : List Char
  isName_chars : isName chars

instance : DecidableEq Segment := fun a b =>
  if h : a.chars = b.chars then .isTrue (by cases a; cases b; simp_all)
  else .isFalse fun e => h (e ▸ rfl)

def Segment.ofChars? (cs : List Char) : Option Segment :=
  if h : isName cs then some ⟨cs, h⟩ else none

/-- A class or package by its dotted name. -/
structure Owner where
  segments : List Segment
  segments_ne_nil : segments ≠ []

instance : DecidableEq Owner := fun a b =>
  if h : a.segments = b.segments then .isTrue (by cases a; cases b; simp_all)
  else .isFalse fun e => h (e ▸ rfl)

namespace Owner

def ofSegments? (segments : List Segment) : Option Owner :=
  if h : segments ≠ [] then some ⟨segments, h⟩ else none

/-- The owner with this one name. -/
def ofName (name : String) (h : isName name.toList := by decide) : Owner :=
  ⟨[⟨name.toList, h⟩], List.cons_ne_nil _ _⟩

/-- The canonical spelling: the segments with dots between them. -/
def chars (o : Owner) : List Char := joinWith '.' (o.segments.map Segment.chars)

def text (o : Owner) : String := String.ofList o.chars

/-- Slashes and dollar signs separate segments as dots do. -/
def separator (c : Char) : Char := if c = '/' ∨ c = '$' then '.' else c

/-- The name inside an object descriptor `Lname;`; any other text is itself. -/
def unwrap : List Char → List Char
  | 'L' :: cs => (dropEnding? [';'] cs).getD ('L' :: cs)
  | cs => cs

/-- Reads a dotted, slashed or descriptor spelling. -/
def ofChars? (cs : List Char) : Option Owner :=
  (splitOn '.' ((unwrap (trim cs)).map separator)).mapM Segment.ofChars? >>= ofSegments?

def parse (cs : List Char) : Except SignatureError Owner :=
  match ofChars? cs with
  | some o => .ok o
  | none => .error (.invalidOwner (String.ofList (trim cs)))

/-- The nonempty leading runs of a list, shortest first. -/
def leadingRuns {α : Type} : List α → List (List α)
  | [] => []
  | x :: xs => [x] :: (leadingRuns xs).map (x :: ·)

/-- The owner and everything around it, the most specific first. -/
def ancestry (o : Owner) : List Owner := (leadingRuns o.segments).reverse.filterMap ofSegments?

/-- Owners are ordered by their spelling. -/
protected def compare (a b : Owner) : Ordering := compare a.chars b.chars

end Owner

end ApiRules
