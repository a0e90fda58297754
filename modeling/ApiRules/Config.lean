import ApiRules.Dictionary
import ApiRules.FilePath
import ApiRules.Query.Context
import ApiRules.Text.Blank
import ApiRules.Text.Number

/-!
Configuration. What was given explicitly comes first, then the environment, then a default. A blank
variable counts as not set.
-/
namespace ApiRules

inductive ConfigError where
  | invalidApiLevel (variableName value : String)
  | invalidBool (variableName value : String)
  deriving DecidableEq, Repr

namespace ConfigError

def message : ConfigError → String
  | invalidApiLevel v value => v ++ ": expected an integer API level, got `" ++ value ++ "`"
  | invalidBool v value => v ++ ": expected a boolean, got `" ++ value ++ "`"

end ConfigError

/-- The variables that are set, by their names. -/
abbrev Environment := Dictionary

namespace Environment

/-- The value of a variable that is set and not blank. -/
def value? (env : Environment) (name : String) : Option String :=
  (env.get? name).filter fun v => !Text.isBlankText v.toList

/-- A user's home directory. -/
def home? (env : Environment) : Option String := (env.get? "HOME").filter (· ≠ "")

/-- The directory for a user's cached files. -/
def cacheDirectory? (env : Environment) : Option String :=
  ((env.get? "XDG_CACHE_HOME").filter FilePath.isAbsolute).or
    (env.home?.map fun home => FilePath.join home ".cache")

/-- The place of a user's cached dataset. -/
def cachedDataset? (env : Environment) : Option String :=
  env.cacheDirectory?.map fun cache => FilePath.join (FilePath.join cache "apilint") "rules.rkyv"

/-- The variables of a block of `NAME=value` entries, each with a zero character after it. -/
def ofBlock (block : List Char) : Environment :=
  Dictionary.ofList ((Text.splitOn '\x00' block).filterMap fun entry =>
    (Text.cut? '=' entry).map fun (name, value) => (String.ofList name, String.ofList value))

end Environment

/-- What is given explicitly. -/
structure Overrides where
  dataset : Option String
  apiLevel : Option Int32
  strict : Option Bool
  deriving DecidableEq

structure Config where
  dataset : String
  apiLevel : Option Int32
  strict : Bool
  deriving DecidableEq

namespace Config

def datasetVariable : String := "APILINT_DATASET"

def apiLevelVariable : String := "APILINT_API_LEVEL"

def strictVariable : String := "APILINT_STRICT"

/-- The dataset that comes with the program. -/
def packagedDataset : String := "rules/rules.rkyv"

def readApiLevel (raw : String) : Except ConfigError Int32 :=
  match Text.signedWord? 32 (Text.trim raw.toList) with
  | some n => .ok (Int32.ofInt n)
  | none => .error (.invalidApiLevel apiLevelVariable raw)

def trueWords : List String := ["1", "true", "yes", "on"]

def falseWords : List String := ["0", "false", "no", "off"]

def readStrict (raw : String) : Except ConfigError Bool :=
  let word := String.ofList ((Text.trim raw.toList).map Char.toLower)
  if word ∈ trueWords then .ok true
  else if word ∈ falseWords then .ok false
  else .error (.invalidBool strictVariable raw)

/-- What was given, or else what `read` makes of the variable if that is set. -/
def orVariable {α : Type} (given : Option α) (env : Environment) (name : String)
    (read : String → Except ConfigError α) : Except ConfigError (Option α) :=
  match given with
  | some a => .ok (some a)
  | none =>
    match env.value? name with
    | some raw => (read raw).map some
    | none => .ok none

def resolve (given : Overrides) (env : Environment) (defaultDataset : String) :
    Except ConfigError Config := do
  let dataset ← orVariable given.dataset env datasetVariable .ok
  let apiLevel ← orVariable given.apiLevel env apiLevelVariable readApiLevel
  let strict ← orVariable given.strict env strictVariable readStrict
  return ⟨dataset.getD defaultDataset, apiLevel, strict.getD false⟩

/-- What queries are told. -/
def context (c : Config) : Query.Context := ⟨c.apiLevel, c.strict⟩

end Config

end ApiRules
