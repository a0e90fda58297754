import ApiRules.Json.Value

/-!
The tokens of a JSON text, read one character at a time. Strict JSON: four white space characters,
no control character in a string, no comments.
-/
namespace ApiRules.Json

inductive Token where
  | openArray
  | closeArray
  | openObject
  | closeObject
  | comma
  | colon
  | atom (v : Value)

/-- The text of UTF-16 units and characters, if every surrogate has its partner. -/
def pairSurrogates? : List Nat → Option (List Char)
  | [] => some []
  | u :: us =>
    if 0xD800 ≤ u ∧ u < 0xDC00 then
      match us with
      | [] => none
      | v :: vs =>
        if 0xDC00 ≤ v ∧ v < 0xE000 then
          (pairSurrogates? vs).map (Char.ofNat (0x10000 + (u - 0xD800) * 0x400 + (v - 0xDC00)) :: ·)
        else none
    else if 0xDC00 ≤ u ∧ u < 0xE000 then none
    else (pairSurrogates? us).map (Char.ofNat u :: ·)

namespace Lexer

/-- What is being read. The characters of a string are kept as code points and units, the last
first. -/
inductive Mode where
  | between
  | word (done : List Char)
  | number (done : List Char)
  | string (done : List Nat)
  | escape (done : List Nat)
  | hex (done : List Nat) (digits unit : Nat)

end Lexer

/-- The tokens read so far, the last first, and what is being read. -/
structure Lexer where
  tokens : List Token
  mode : Lexer.Mode

namespace Lexer

def isNumberChar (c : Char) : Bool :=
  c.isDigit || c == '-' || c == '+' || c == '.' || c == 'e' || c == 'E'

def punctuation? : Char → Option Token
  | '[' => some .openArray
  | ']' => some .closeArray
  | '{' => some .openObject
  | '}' => some .closeObject
  | ',' => some .comma
  | ':' => some .colon
  | _ => none

/-- The character that a one-letter escape stands for. -/
def escaped? : Char → Option Char
  | '"' => some '"'
  | '\\' => some '\\'
  | '/' => some '/'
  | 'b' => some '\x08'
  | 'f' => some '\x0c'
  | 'n' => some '\n'
  | 'r' => some '\r'
  | 't' => some '\t'
  | _ => none

def word? : List Char → Option Value
  | ['n', 'u', 'l', 'l'] => some .null
  | ['t', 'r', 'u', 'e'] => some (.bool true)
  | ['f', 'a', 'l', 's', 'e'] => some (.bool false)
  | _ => none

/-- A character between tokens. -/
def start (tokens : List Token) (c : Char) : Option Lexer :=
  if c = ' ' ∨ c = '\n' ∨ c = '\r' ∨ c = '\t' then some ⟨tokens, .between⟩
  else if c = '"' then some ⟨tokens, .string []⟩
  else if c.isDigit ∨ c = '-' then some ⟨tokens, .number [c]⟩
  else if c.isLower then some ⟨tokens, .word [c]⟩
  else (punctuation? c).map fun t => ⟨t :: tokens, .between⟩

def step (l : Lexer) (c : Char) : Option Lexer :=
  match l.mode with
  | .between => start l.tokens c
  | .word done =>
    if c.isLower then some { l with mode := .word (c :: done) }
    else (word? done.reverse).bind fun v => start (.atom v :: l.tokens) c
  | .number done =>
    if isNumberChar c then some { l with mode := .number (c :: done) }
    else (Number.ofChars? done.reverse).bind fun n => start (.atom (.number n) :: l.tokens) c
  | .string done =>
    if c = '"' then
      let text := (pairSurrogates? done.reverse).map String.ofList
      some ⟨.atom (.string text) :: l.tokens, .between⟩
    else if c = '\\' then some { l with mode := .escape done }
    else if c.toNat < 0x20 then none
    else some { l with mode := .string (c.toNat :: done) }
  | .escape done =>
    if c = 'u' then some { l with mode := .hex done 0 0 }
    else (escaped? c).map fun e => { l with mode := .string (e.toNat :: done) }
  | .hex done digits unit =>
    (Text.hexDigit? c).map fun d =>
      if digits = 3 then { l with mode := .string ((16 * unit + d) :: done) }
      else { l with mode := .hex done (digits + 1) (16 * unit + d) }

/-- The tokens at the end of the text. -/
def finish (l : Lexer) : Option (List Token) :=
  match l.mode with
  | .between => some l.tokens.reverse
  | .word done => (word? done.reverse).map fun v => (.atom v :: l.tokens).reverse
  | .number done =>
    (Number.ofChars? done.reverse).map fun n => (.atom (.number n) :: l.tokens).reverse
  | _ => none

end Lexer

/-- The tokens of a text, if it has no others. -/
def tokens? (cs : List Char) : Option (List Token) :=
  cs.foldlM Lexer.step ⟨[], .between⟩ >>= Lexer.finish

end ApiRules.Json
