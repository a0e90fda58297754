import ApiRules.Text.Blank
import ApiRules.Text.Number

/-!
Literals of integer constants. A hexadecimal literal states the bits of a word, so that it may spell
a negative number; a decimal one states the number.
-/
namespace ApiRules

/-- What the constants of a declaration are. -/
inductive ConstantKind where
  | int
  | long
  | text
  deriving DecidableEq, Repr, Inhabited

namespace ConstantKind

def all : List ConstantKind := [int, long, text]

def name : ConstantKind → String
  | int => "int"
  | long => "long"
  | text => "string"

def ofName? (name : String) : Option ConstantKind := all.find? fun k => k.name == name

/-- The annotation that declares such constants. -/
def annotationName : ConstantKind → String
  | int => "androidx.annotation.IntDef"
  | long => "androidx.annotation.LongDef"
  | text => "androidx.annotation.StringDef"

/-- The bits of a word of an integer kind. -/
def width? : ConstantKind → Option Nat
  | int => some 32
  | long => some 64
  | text => none

/-- A number that states the bits of an `int` is that `int`. -/
def coerce (kind : ConstantKind) (value : Int64) : Int64 :=
  if kind = int ∧ 0 ≤ value.toInt ∧ value.toInt < wordCount 32 then
    Int64.ofInt (value.toInt.bmod (wordCount 32))
  else value

end ConstantKind

namespace Literal

/-- The digits after the mark of a hexadecimal literal. -/
def hexDigits? : List Char → Option (List Char)
  | '0' :: 'x' :: ds => some ds
  | '0' :: 'X' :: ds => some ds
  | _ => none

/-- Hexadecimal digits that state a word of `width` bits, or the bits of its negation. -/
def word? (width : Nat) (negative : Bool) (digits : List Char) : Option Int :=
  ((Text.hex? digits).filter (· < wordCount width)).map fun n =>
    (if negative then -(n : Int) else n).bmod (wordCount width)

/-- A literal without white space around it. -/
def ofChars? (width : Nat) (cs : List Char) : Option Int :=
  let (negative, digits) := match cs with
    | '-' :: ds => (true, ds)
    | ds => (false, ds)
  match hexDigits? digits with
  | some ds => word? width negative ds
  | none => Text.signedWord? width cs

/-- The value of an integer literal of this kind. -/
def parse? (raw : String) (kind : ConstantKind) : Option Int64 :=
  kind.width?.bind fun width => (ofChars? width (Text.trim raw.toList)).map Int64.ofInt

end Literal

end ApiRules
