import ApiRules.Json.Value

/-!
The text of a JSON value, on one line or spread over lines with two blanks for each level. Quotes,
backslashes and control characters are escaped, nothing else is.
-/
namespace ApiRules.Json

def lowerHexDigit (n : Nat) : Char := Nat.digitChar (n % 16)

/-- A character inside a string literal. -/
def escapeChar (c : Char) : List Char :=
  if c = '"' then ['\\', '"']
  else if c = '\\' then ['\\', '\\']
  else if c = '\x08' then ['\\', 'b']
  else if c = '\x0c' then ['\\', 'f']
  else if c = '\n' then ['\\', 'n']
  else if c = '\r' then ['\\', 'r']
  else if c = '\t' then ['\\', 't']
  else if c.toNat < 0x20 then
    ['\\', 'u', '0', '0', lowerHexDigit (c.toNat / 16), lowerHexDigit c.toNat]
  else [c]

/-- A string literal. A literal that is no text is written as half of a surrogate pair. -/
def quote : Literal → List Char
  | some s => '"' :: s.toList.flatMap escapeChar ++ ['"']
  | none => ['"', '\\', 'u', 'd', '8', '0', '0', '"']

namespace Value

mutual

/-- The text on one line, without white space. -/
def chars : Value → List Char
  | null => ['n', 'u', 'l', 'l']
  | bool true => ['t', 'r', 'u', 'e']
  | bool false => ['f', 'a', 'l', 's', 'e']
  | number n => n.chars
  | string s => quote s
  | array items => '[' :: itemChars items
  | object members => '{' :: memberChars members

/-- What follows the opening bracket of an array. -/
def itemChars : List Value → List Char
  | [] => [']']
  | v :: vs => v.chars ++ moreItemChars vs

def moreItemChars : List Value → List Char
  | [] => [']']
  | v :: vs => ',' :: (v.chars ++ moreItemChars vs)

/-- What follows the opening brace of an object. -/
def memberChars : List (Literal × Value) → List Char
  | [] => ['}']
  | (k, v) :: ms => quote k ++ ':' :: (v.chars ++ moreMemberChars ms)

def moreMemberChars : List (Literal × Value) → List Char
  | [] => ['}']
  | (k, v) :: ms => ',' :: (quote k ++ ':' :: (v.chars ++ moreMemberChars ms))

end

def text (v : Value) : String := String.ofList v.chars

/-- A new line at a level. -/
def newline (level : Nat) : List Char := '\n' :: List.replicate (2 * level) ' '

mutual

/-- The text with each item and member on a line of its own; empty containers stay on one line. -/
def spreadChars (level : Nat) : Value → List Char
  | array [] => ['[', ']']
  | array (v :: vs) => '[' :: (newline (level + 1) ++ spreadChars (level + 1) v ++ spreadItems level vs)
  | object [] => ['{', '}']
  | object ((k, v) :: ms) =>
    '{' :: (newline (level + 1) ++ quote k ++ ':' :: ' ' :: spreadChars (level + 1) v ++
      spreadMembers level ms)
  | null => ['n', 'u', 'l', 'l']
  | bool true => ['t', 'r', 'u', 'e']
  | bool false => ['f', 'a', 'l', 's', 'e']
  | number n => n.chars
  | string s => quote s

def spreadItems (level : Nat) : List Value → List Char
  | [] => newline level ++ [']']
  | v :: vs => ',' :: (newline (level + 1) ++ spreadChars (level + 1) v ++ spreadItems level vs)

def spreadMembers (level : Nat) : List (Literal × Value) → List Char
  | [] => newline level ++ ['}']
  | (k, v) :: ms =>
    ',' :: (newline (level + 1) ++ quote k ++ ':' :: ' ' :: spreadChars (level + 1) v ++
      spreadMembers level ms)

end

def spreadText (v : Value) : String := String.ofList (v.spreadChars 0)

end Value

end ApiRules.Json
