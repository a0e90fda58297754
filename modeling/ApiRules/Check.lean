import ApiRules.Linter
import ApiRules.Tracker

/-!
Checks of a text that has a signature on each line. Blank lines and lines that start with a number
sign are passed over.
-/
namespace ApiRules

open Text

/-- What became of one line. -/
structure CheckedLine where
  /-- Lines are counted from one. -/
  number : Nat
  text : String
  findings : Except QueryError (List Finding)

namespace Check

/-- A line without white space around it that is neither blank nor a comment. -/
def isSignatureLine : List Char → Bool
  | [] => false
  | c :: _ => c != '#'

/-- The lines with signatures, with their numbers. -/
def signatureLines (content : List Char) : List (Nat × List Char) :=
  (((splitOn '\n' content).zipIdx 1).map fun (line, n) => (n, trim line)).filter fun (_, line) =>
    isSignatureLine line

def line (l : Linter) (context : Query.Context) (number : Nat) (cs : List Char) : CheckedLine :=
  let text := String.ofList cs
  ⟨number, text, (l.findingsOfText text context).map Prod.snd⟩

/-- Checks every signature in a text. -/
def lines (l : Linter) (context : Query.Context) (content : String) : List CheckedLine :=
  (signatureLines content.toList).map fun (n, cs) => line l context n cs

end Check

namespace CheckedLine

def isInvalid (c : CheckedLine) : Bool :=
  match c.findings with
  | .ok _ => false
  | .error _ => true

/-- The findings; none if the line is invalid. -/
def found (c : CheckedLine) : List Finding :=
  match c.findings with
  | .ok fs => fs
  | .error _ => []

def isFlagged (c : CheckedLine) : Bool := !c.found.isEmpty

end CheckedLine

/-- What was counted in a check. -/
structure CheckSummary where
  signatures : Nat
  flagged : Nat
  invalid : Nat
  /-- The libraries that findings came from, in ascending order. -/
  dependencies : List String
  deriving DecidableEq, Repr

namespace Check

/-- What is known of libraries after these lines. -/
def track (cs : List CheckedLine) : Tracker :=
  cs.foldl (fun t c => t.observeFindings c.found) .empty

def summary (cs : List CheckedLine) : CheckSummary where
  signatures := cs.length
  flagged := cs.countP CheckedLine.isFlagged
  invalid := cs.countP CheckedLine.isInvalid
  dependencies := (track cs).artifacts

end Check

end ApiRules
