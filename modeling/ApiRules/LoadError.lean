import ApiRules.Archive.Bytes
import ApiRules.FileError
import ApiRules.Pattern
import ApiRules.Rule.Kind

/-!
Why a dataset does not load.
-/
namespace ApiRules

/-- What a reader of archives says of the payloads that it refuses, where this is known. -/
abbrev Archive.Diagnosis := Archive.Bytes → Option String

def Archive.undiagnosed : Archive.Diagnosis := fun _ => none

/-- What is wrong with a container or with its table. -/
inductive Corruption where
  | truncatedHeader (size : Nat)
  | badMagic
  | reservedNotZero
  | digestMismatch
  | badArchive (payload : Archive.Bytes)
  | invalidPattern (text : String) (error : SignatureError)
  | duplicateRecord (kind : Kind) (pattern : Pattern)
  | invalidMethod (text : String) (error : SignatureError)
  | notAMethod (text : String)
  | duplicateTypedef (argument : UInt32) (method : String)
  deriving DecidableEq

namespace Corruption

def message (c : Corruption) (diagnosis : Archive.Diagnosis := Archive.undiagnosed) : String :=
  match c with
  | truncatedHeader size => s!"truncated header ({size} bytes)"
  | badMagic => "not an apilint dataset (bad magic)"
  | reservedNotZero => "reserved header bytes are not zero"
  | digestMismatch => "payload digest mismatch"
  | badArchive payload => "archive validation failed" ++ ((diagnosis payload).map (": " ++ ·)).getD ""
  | invalidPattern text error => "invalid pattern `" ++ text ++ "`: " ++ error.message
  | duplicateRecord kind pattern =>
    "duplicate " ++ kind.name ++ " record for `" ++ pattern.text ++ "`"
  | invalidMethod text error => "invalid typedef method `" ++ text ++ "`: " ++ error.message
  | notAMethod text => "typedef target `" ++ text ++ "` is not a method"
  | duplicateTypedef argument method =>
    "duplicate typedef for argument " ++ toString argument ++ " of `" ++ method ++ "`"

end Corruption

inductive LoadError where
  | unreadable (error : FileError)
  | corrupt (why : Corruption)
  | versionMismatch (found : UInt32)
  deriving DecidableEq

namespace LoadError

def message (e : LoadError) (diagnosis : Archive.Diagnosis := Archive.undiagnosed) : String :=
  match e with
  | unreadable error => "dataset unreadable: " ++ error.message
  | corrupt why => "dataset corrupt: " ++ why.message diagnosis
  | versionMismatch found =>
    s!"dataset format version {found} is not supported (expected 1)"

end LoadError

end ApiRules
