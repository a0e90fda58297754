import ApiRules.Word

/-!
Integers in text: a run of decimal or hexadecimal digits, with a sign where one may stand.
-/
namespace ApiRules.Text

/-- The value of a nonempty run of the digits `0` to `9`. -/
def decimal? (cs : List Char) : Option Nat :=
  if cs ≠ [] ∧ cs.all Char.isDigit then some (Nat.ofDigitChars 10 cs 0) else none

def hexDigit? (c : Char) : Option Nat :=
  if '0' ≤ c ∧ c ≤ '9' then some (c.toNat - '0'.toNat)
  else if 'a' ≤ c ∧ c ≤ 'f' then some (c.toNat - 'a'.toNat + 10)
  else if 'A' ≤ c ∧ c ≤ 'F' then some (c.toNat - 'A'.toNat + 10)
  else none

/-- The value of a nonempty run of hexadecimal digits in either case. -/
def hex? (cs : List Char) : Option Nat :=
  if cs = [] then none
  else cs.foldlM (fun n c => (hexDigit? c).map (16 * n + ·)) 0

/-- A decimal integer with an optional sign. -/
def integer? : List Char → Option Int
  | '+' :: cs => (decimal? cs).map Int.ofNat
  | '-' :: cs => (decimal? cs).map fun n => -Int.ofNat n
  | cs => (decimal? cs).map Int.ofNat

/-- A decimal integer of a signed word of `bits` bits. -/
def signedWord? (bits : Nat) (cs : List Char) : Option Int :=
  (integer? cs).filter fun n : Int => -(wordCount (bits - 1) : Int) ≤ n ∧ n < wordCount (bits - 1)

/-- The text padded with blanks on its left up to `width` characters. -/
def padLeft (width : Nat) (s : String) : String :=
  String.ofList (List.replicate (width - s.length) ' ') ++ s

/-- The text padded with blanks on its right up to `width` characters. -/
def padRight (width : Nat) (s : String) : String :=
  s ++ String.ofList (List.replicate (width - s.length) ' ')

end ApiRules.Text
