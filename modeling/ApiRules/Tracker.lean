import ApiRules.Log
import ApiRules.Query.Argument
import ApiRules.Query.Finding

/-!
Which library artifacts an answer came from. Rules of the platform itself point to no library.
-/
namespace ApiRules

/-- An artifact that was seen for the first time. -/
structure DependencyEvent where
  artifact : String
  source : Source
  deriving DecidableEq

namespace DependencyEvent

def entry (e : DependencyEvent) : LogEntry :=
  ⟨.info, "detected library dependency", [("artifact", e.artifact), ("source", e.source.label)]⟩

end DependencyEvent

/-- The artifacts seen so far, in ascending order, and the events of their first sights. -/
structure Tracker where
  artifacts : List String
  events : List DependencyEvent

namespace Tracker

def empty : Tracker := ⟨[], []⟩

/-- The artifact of an observation that points to a library. -/
def library? : Source → Option String → Option String
  | .sdkLint, _ => none
  | _, artifact => artifact

/-- Puts a text in its place in an ascending list. -/
def insert (a : String) : List String → List String
  | [] => [a]
  | b :: bs => if a < b then a :: b :: bs else b :: insert a bs

/-- The observation is the first one of a library's artifact. -/
def isFresh (t : Tracker) (source : Source) (artifact : Option String) : Bool :=
  (library? source artifact).any fun a => !t.artifacts.contains a

def observe (t : Tracker) (source : Source) (artifact : Option String) : Tracker :=
  match library? source artifact with
  | none => t
  | some a =>
    if t.artifacts.contains a then t else ⟨insert a t.artifacts, t.events ++ [⟨a, source⟩]⟩

def observeFindings (t : Tracker) (fs : List Finding) : Tracker :=
  fs.foldl (fun t f => t.observe f.source f.artifact) t

def observeResolution (t : Tracker) (r : Query.Resolution) : Tracker :=
  t.observe r.source r.artifact

end Tracker

end ApiRules
