import ApiRules.Text.Number
import ApiRules.Word

/-!
JSON numbers as they are written. Nothing is rounded here: the digits are kept, and only the question
whether a number is too large for a double-precision float asks for floating point, in exact integer
arithmetic.
-/
namespace ApiRules.Json

/-- The parts of a number. Without a point `fraction` is empty. -/
structure Number where
  negative : Bool
  whole : List Char
  fraction : List Char
  exponent : Option Int
  deriving DecidableEq, Repr

namespace Number

def ofNat (n : Nat) : Number := ⟨false, Nat.toDigits 10 n, [], none⟩

/-- The digits of a whole part: a zero, or digits that start with none. -/
def isWhole : List Char → Bool
  | [] => false
  | ['0'] => true
  | c :: cs => c != '0' && (c :: cs).all Char.isDigit

/-- An exponent without its letter. -/
def exponent? : List Char → Option Int
  | '+' :: cs => (Text.decimal? cs).map Int.ofNat
  | '-' :: cs => (Text.decimal? cs).map fun n => -Int.ofNat n
  | cs => (Text.decimal? cs).map Int.ofNat

/-- The text after the whole part. -/
def tail? (negative : Bool) (whole fraction : List Char) : List Char → Option Number
  | [] => some ⟨negative, whole, fraction, none⟩
  | c :: cs =>
    if c = 'e' ∨ c = 'E' then (exponent? cs).map fun e => ⟨negative, whole, fraction, some e⟩
    else none

/-- The text of a number without its sign. -/
def unsigned? (negative : Bool) (cs : List Char) : Option Number :=
  let whole := cs.takeWhile Char.isDigit
  if isWhole whole then
    match cs.dropWhile Char.isDigit with
    | '.' :: rest =>
      let fraction := rest.takeWhile Char.isDigit
      if fraction = [] then none
      else tail? negative whole fraction (rest.dropWhile Char.isDigit)
    | rest => tail? negative whole [] rest
  else none

def ofChars? : List Char → Option Number
  | '-' :: cs => unsigned? true cs
  | cs => unsigned? false cs

/-- The value of a number written as digits alone. -/
def toNat? (n : Number) : Option Nat :=
  if n.negative = false ∧ n.fraction = [] ∧ n.exponent = none then
    some (Nat.ofDigitChars 10 n.whole 0)
  else none

def chars (n : Number) : List Char :=
  (if n.negative then ['-'] else []) ++ n.whole ++
    (if n.fraction = [] then [] else '.' :: n.fraction) ++
    (match n.exponent with
      | none => []
      | some e => 'e' :: (toString e).toList)

/-- Rounds to 53 significant bits, a half to the even neighbour. -/
def roundToDouble (n : Nat) : Nat :=
  let unit := wordCount (n.log2 - 52)
  let low := n % unit
  let down := n - low
  if 2 * low < unit ∨ (2 * low = unit ∧ (n / unit) % 2 = 0) then down else down + unit

/-- The leading digits that fit a 64-bit word, and the power of ten that goes with them. Whole
digits beyond the word raise the power; fraction digits beyond it are left out. -/
def significand (n : Number) : Nat × Int :=
  let word (m : Nat) (c : Char) : Option Nat :=
    let m' := 10 * m + (c.toNat - '0'.toNat)
    if m' < wordCount 64 then some m' else none
  let whole := n.whole.foldl (fun (m, e, full) c =>
    if full then (m, e + 1, true)
    else match word m c with
      | some m' => (m', e, false)
      | none => (m, e + 1, true)) ((0, 0, false) : Nat × Int × Bool)
  let all := n.fraction.foldl (fun (m, e, full) c =>
    if full then (m, e, true)
    else match word m c with
      | some m' => (m', e - 1, false)
      | none => (m, e, true)) (whole.1, whole.2.1, false)
  (all.1, all.2.1)

/-- The significand, rounded to a double, times the double nearest to the power of ten is beyond
every finite double. -/
def overflows (n : Number) : Bool :=
  let (m, e) := n.significand
  let e := e + n.exponent.getD 0
  if m = 0 ∨ e < 0 then false
  else if e > 308 then true
  else wordCount 1024 ≤ roundToDouble (roundToDouble m * roundToDouble (Nat.pow 10 e.toNat))

end Number

end ApiRules.Json
