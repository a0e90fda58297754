/-!
Log entries: what a part of the library reports beside its answer. Every part has its own type of
events, and says how they are written as entries.
-/
namespace ApiRules

inductive LogLevel where
  | error
  | warn
  | info
  | debug
  deriving DecidableEq, Repr

namespace LogLevel

def name : LogLevel → String
  | error => "error"
  | warn => "warn"
  | info => "info"
  | debug => "debug"

end LogLevel

structure LogEntry where
  level : LogLevel
  message : String
  fields : List (String × String)
  deriving DecidableEq, Repr

namespace LogEntry

/-- The entry on one line. -/
def text (e : LogEntry) : String :=
  String.intercalate " " ([e.level.name, e.message] ++ e.fields.map fun (name, value) => name ++ "=" ++ value)

end LogEntry

end ApiRules
