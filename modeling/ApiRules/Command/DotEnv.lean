import ApiRules.Config
import ApiRules.Text.Alphanumeric
import ApiRules.Text.Cut

/-!
Files of variables. A line is `NAME=value` or `export NAME=value`; comments start with a number sign.
Values may be quoted, and a quoted value may go on over lines. Outside single quotes a backslash escapes
and a dollar sign names a variable, as `$NAME` or between braces. A variable that is already set stays as
it is. Reading stops at the first line that is not well formed.
-/
namespace ApiRules.DotEnv

open Text

/-! Lines -/

/-- Where a line stands, as far as its end depends on it. -/
inductive LineState where
  | plain
  | escape
  | blank
  | single
  | singleEscape
  | double
  | doubleEscape
  | comment
  deriving DecidableEq, Repr

namespace LineState

/-- What a character outside quotes starts. -/
def opened (c : Char) : LineState :=
  if c = '\\' then escape
  else if c = '"' then double
  else if c = '\'' then single
  else plain

def next : LineState → Char → LineState
  | plain, c => if isBlank c ∧ c ≠ '\n' ∧ c ≠ '\r' then blank else opened c
  | blank, c => if c = '#' then comment else opened c
  | escape, _ => plain
  | single, c => if c = '\\' then singleEscape else if c = '\'' then plain else single
  | singleEscape, _ => single
  | double, c => if c = '\\' then doubleEscape else if c = '"' then plain else double
  | doubleEscape, _ => double
  | comment, _ => comment

end LineState

/-- Follows a line up to a comment: the last state, and the text before the comment. -/
def scan : LineState → List Char → LineState × List Char
  | st, [] => (st, [])
  | st, c :: cs =>
    if st.next c = .comment then (.comment, [])
    else
      let (last, kept) := scan (st.next c) cs
      (last, c :: kept)

/-- The text without the line break at its end. -/
def dropBreak (cs : List Char) : List Char :=
  match dropEnding? ['\r', '\n'] cs, dropEnding? ['\n'] cs with
  | some line, _ => line
  | none, some line => line
  | none, none => cs

/-- The lines of a text, each with its line break. -/
def breakLines : List Char → List (List Char)
  | [] => []
  | c :: cs =>
    if c = '\n' then ['\n'] :: breakLines cs
    else match breakLines cs with
      | [] => [[c]]
      | line :: lines => (c :: line) :: lines

def startsComment (cs : List Char) : Bool := (trimLeft cs).head? == some '#'

/-- Joins the lines that a quoted value goes on over, without comments. The last entry is `none` if
the text ends where a line cannot end. -/
def joinLines : LineState → List Char → List (List Char) → List (Option (List Char))
  | st, _, [] => if st = .plain then [] else [none]
  | st, held, line :: lines =>
    if startsComment (held ++ line) then joinLines .plain [] lines
    else
      let (last, kept) := scan st line
      match last with
      | .plain => some (dropBreak (held ++ line)) :: joinLines .plain [] lines
      | .comment => some (held ++ kept) :: joinLines .plain [] lines
      | _ => joinLines last (held ++ line) lines

/-! Values -/

inductive Mode where
  | bare
  | single
  | double
  /-- After a backslash. -/
  | escape (quoted : Bool)
  /-- After a dollar sign. -/
  | name (quoted : Bool) (chars : List Char)
  /-- After a dollar sign and a brace. -/
  | braced (quoted : Bool) (chars : List Char)
  /-- Only blanks and a comment may follow. -/
  | ended
  | comment
  deriving DecidableEq, Repr

namespace Mode

/-- Outside single quotes: inside double quotes or not. -/
def within (quoted : Bool) : Mode := if quoted then double else bare

end Mode

/-- What is read of a value. -/
structure Reading where
  mode : Mode
  output : List Char

/-- The character that an escape stands for. -/
def escaped? (c : Char) : Option Char :=
  if c ∈ ['\\', '\'', '"', '$', ' '] then some c
  else if c = 'n' then some '\n'
  else none

def valueOf (env : Environment) (name : List Char) : List Char :=
  ((env.get? (String.ofList name)).getD "").toList

/-- A name after a dollar sign ends at the first character that is neither letter nor digit. That
character belongs to the value, whatever it is, unless it starts another name. -/
def endName (env : Environment) (r : Reading) (quoted : Bool) (name : List Char) (c : Char) : Reading :=
  let output := r.output ++ valueOf env name
  if c = '$' then ⟨.name quoted [], output⟩ else ⟨.within quoted, output ++ [c]⟩

/-- Takes one character of a value. -/
def take (env : Environment) (r : Reading) (c : Char) : Option Reading :=
  let turn (mode : Mode) : Option Reading := some { r with mode }
  let keep : Option Reading := some { r with output := r.output ++ [c] }
  match r.mode with
  | .comment => some r
  | .ended => if c = ' ' ∨ c = '\t' then some r else if c = '#' then turn .comment else none
  | .escape quoted => (escaped? c).map fun e => ⟨.within quoted, r.output ++ [e]⟩
  | .single => if c = '\'' then turn .bare else keep
  | .name quoted name =>
    if isAlphanumeric c then turn (.name quoted (name ++ [c]))
    else if c = '\x7b' ∧ name = [] then turn (.braced quoted [])
    else some (endName env r quoted name c)
  | .braced quoted name =>
    if c = '\x7d' then some ⟨.within quoted, r.output ++ valueOf env name⟩
    else turn (.braced quoted (name ++ [c]))
  | .double =>
    if c = '$' then turn (.name true [])
    else if c = '"' then turn .bare
    else if c = '\\' then turn (.escape true)
    else keep
  | .bare =>
    if c = '$' then turn (.name false [])
    else if c = '\'' then turn .single
    else if c = '"' then turn .double
    else if c = '\\' then turn (.escape false)
    else if c = ' ' ∨ c = '\t' then turn .ended
    else keep

/-- The value that is read, unless quotes or braces are still open. -/
def finish? (env : Environment) (r : Reading) : Option String :=
  match r.mode with
  | .single => none
  | .double => none
  | .escape true => none
  | .braced _ _ => none
  | .name true _ => none
  | .name false name => some (String.ofList (r.output ++ valueOf env name))
  | _ => some (String.ofList r.output)

def value? (env : Environment) (cs : List Char) : Option String :=
  cs.foldlM (take env) ⟨.bare, []⟩ >>= finish? env

/-! Assignments -/

def isVariableStart (c : Char) : Bool := c.isAlpha || c == '_'

def isVariableChar (c : Char) : Bool := c.isAlphanum || c == '_' || c == '.'

/-- The name at the start of a text, and the text after it and after blanks. -/
def name? : List Char → Option (List Char × List Char)
  | [] => none
  | c :: cs =>
    if isVariableStart c then
      some ((c :: cs).takeWhile isVariableChar, trimLeft ((c :: cs).dropWhile isVariableChar))
    else none

/-- The text after an equals sign. -/
def afterEquals? : List Char → Option (List Char)
  | '=' :: cs => some (trimLeft cs)
  | _ => none

/-- The name of an assignment, and the text of its value. The word `export` before a name is passed
over; alone it is a name. -/
def assignment? (cs : List Char) : Option (List Char × List Char) := do
  let (name, rest) ← name? cs
  match afterEquals? rest with
  | some value => return (name, value)
  | none =>
    if name = "export".toList then
      let (name, rest) ← name? rest
      return (name, ← afterEquals? rest)
    else none

inductive Line where
  | empty
  | assign (name value : String)
  deriving DecidableEq, Repr

def isEmptyLine (cs : List Char) : Bool := cs == [] || cs.head? == some '#'

def line? (env : Environment) (cs : List Char) : Option Line :=
  let cs := trim cs
  if isEmptyLine cs then some .empty
  else do
    let (name, value) ← assignment? cs
    if isEmptyLine value then return .assign (String.ofList name) ""
    else return .assign (String.ofList name) (← value? env value)

/-! Files -/

/-- Sets a variable that is not set. -/
def set (env : Environment) (name value : String) : Environment :=
  match env.get? name with
  | some _ => env
  | none => env.insert name value

/-- Takes lines up to the first that is not well formed. -/
def setLines : Environment → List (Option (List Char)) → Environment
  | env, [] => env
  | env, none :: _ => env
  | env, some cs :: lines =>
    match line? env cs with
    | none => env
    | some .empty => setLines env lines
    | some (.assign name value) => setLines (set env name value) lines

def dropByteOrderMark : List Char → List Char
  | '\uFEFF' :: cs => cs
  | cs => cs

/-- The environment with the variables of a file. -/
def load (env : Environment) (content : String) : Environment :=
  setLines env (joinLines .plain [] (breakLines (dropByteOrderMark content.toList)))

end ApiRules.DotEnv
