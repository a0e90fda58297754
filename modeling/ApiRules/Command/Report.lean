import ApiRules.Check
import ApiRules.Json.Writer
import ApiRules.Query.Encoding

/-!
What the linter prints.
-/
namespace ApiRules.Command

open Text

namespace Box

def border : String := "+" ++ String.ofList (List.replicate 42 '-') ++ "+"

def title (text : String) : String := "| " ++ padRight 40 text ++ " |"

def row (label value : String) : String := "| " ++ padRight 14 label ++ " : " ++ padLeft 22 value ++ " |"

/-- A title over rows of labels and values. -/
def lines (heading : String) (rows : List (String × String)) : List String :=
  [border, title heading, border] ++ rows.map (fun (label, value) => row label value) ++ [border]

end Box

namespace Report

/-- The findings for a signature, one below the other. -/
def findings (s : Signature) (fs : List Finding) : List String :=
  s.text :: if fs = [] then ["  no findings"] else fs.map fun f => "  " ++ f.text

/-- The findings in JSON. -/
def findingsJson (fs : List Finding) : List String :=
  [(Json.Value.array (fs.map Finding.toJson)).spreadText]

/-- A line of a checked file, if there is something to say about it. -/
def checkedLine (file : String) (c : CheckedLine) : List String :=
  if c.isFlagged then
    (file ++ s!":{c.number}: " ++ c.text) :: c.found.map fun f => "    " ++ f.text
  else []

def dependencies : List String → List String
  | [] => ["No library dependencies detected."]
  | artifacts => "" :: "DETECTED DEPENDENCIES:" :: artifacts.map ("  " ++ ·)

def summary (s : CheckSummary) : List String :=
  Box.lines "APILINT CHECK" [("Signatures", toString s.signatures), ("Flagged", toString s.flagged),
    ("Invalid", toString s.invalid)] ++ dependencies s.dependencies

/-- What a check of a file found. -/
def check (file : String) (cs : List CheckedLine) : List String :=
  cs.flatMap (checkedLine file) ++ summary (Check.summary cs)

def resolution (call : Signature) (argument : UInt32) : Option Query.Resolution → List String
  | some r => [r.replacement.text, "  declared on " ++ r.declaredOn.text ++ " (" ++ r.source.label ++ ")"]
  | none => [s!"no constant for argument {argument} of " ++ call.text]

def stats (path : String) (l : Linter) : List String :=
  let d := l.dataset
  Box.lines "APILINT DATASET" [("Status", l.status.text), ("Records", toString d.length),
    ("Typedefs", toString d.typedefCount)] ++
  ["Path: " ++ path] ++
  d.digest.toList.map (fun x => "SHA-256: " ++ x.text) ++
  ["", "BY SOURCE:"] ++
  d.countBySource.map (fun (s, n) => s!"  {padRight 14 s.label} {n}") ++
  ["", "BY KIND:"] ++
  d.countByKind.map (fun (k, n) => s!"  {padRight 22 k.name} {n}")

end Report

end ApiRules.Command
