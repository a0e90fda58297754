import ApiRules.Config
import ApiRules.FileError
import ApiRules.Log
import ApiRules.Text.Cut

/-!
How a run of a program ends.
-/
namespace ApiRules.Command

open Text

inductive CommandError where
  | config (error : ConfigError)
  | query (error : QueryError)
  | unreadable (path : String) (error : FileError)
  | unreadablePartial (path : String) (error : FileError)
  | badPartial (path : String)
  | unwritable (path : String) (error : FileError)
  | tooLarge (path : String)
  deriving DecidableEq

namespace CommandError

/-- What went wrong, and why, from the nearest cause to the farthest. -/
def messages : CommandError → List String
  | config error => ["invalid configuration", error.message]
  | query (.invalidSignature error) => [(QueryError.invalidSignature error).message, error.message]
  | query error => [error.message]
  | unreadable path error => ["Failed to read " ++ path, error.message]
  | unreadablePartial path error =>
    ["failed to read " ++ path ++ ": " ++ error.message, error.message]
  | badPartial path => ["invalid partial dataset " ++ path]
  | unwritable path error =>
    ["Failed to write " ++ path, "cannot write dataset " ++ path ++ ": " ++ error.message,
      error.message]
  | tooLarge path =>
    ["Failed to write " ++ path, "dataset serialization failed: the archive is too large"]

/-- The text with more space at the start of all lines but the first. -/
def indented (space : Nat) (text : String) : String :=
  String.ofList ((splitOn '\n' text.toList).intersperse ('\n' :: List.replicate space ' ')).flatten

/-- Causes are numbered if there are several. -/
def causeLines : List String → List String
  | [] => []
  | [cause] => ["", "Caused by:", "    " ++ indented 4 cause]
  | causes =>
    "" :: "Caused by:" :: causes.zipIdx.map fun (cause, i) => s!"    {i}: " ++ indented 7 cause

/-- The report of an error. -/
def text (e : CommandError) : String :=
  match e.messages with
  | [] => "Error"
  | message :: causes => String.intercalate "\n" (("Error: " ++ message) :: causeLines causes)

end CommandError

inductive Ending where
  | done (lines : List String)
  | failed (error : CommandError)
  | help
  | invalidArguments

structure Outcome where
  ending : Ending
  log : List LogEntry

namespace Ending

def exitCode : Ending → UInt8
  | done _ => 0
  | failed _ => 1
  | help => 0
  | invalidArguments => 2

/-- What is printed. -/
def output : Ending → String
  | done lines => String.join (lines.map (· ++ "\n"))
  | _ => ""

def errorText? : Ending → Option String
  | failed error => some error.text
  | _ => none

end Ending

end ApiRules.Command
