/-!
Sources of rules, by priority.
-/
namespace ApiRules

/-- Where a rule was harvested. The first of these outranks the others, the second the third. -/
inductive Source where
  | sdkLint
  | googleMaven
  | mavenCentral
  deriving DecidableEq, Repr, Inhabited

namespace Source

def all : List Source := [sdkLint, googleMaven, mavenCentral]

/-- The place in the order of priority, from the highest. -/
def rank : Source → Nat
  | sdkLint => 0
  | googleMaven => 1
  | mavenCentral => 2

def outranks (a b : Source) : Bool := a.rank < b.rank

protected def compare (a b : Source) : Ordering := compare a.rank b.rank

/-- The name in data. -/
def name : Source → String
  | sdkLint => "sdk_lint"
  | googleMaven => "google_maven"
  | mavenCentral => "maven_central"

def ofName? (name : String) : Option Source := all.find? fun s => s.name == name

/-- The name for readers. -/
def label : Source → String
  | sdkLint => "Android SDK"
  | googleMaven => "Google Maven"
  | mavenCentral => "Maven Central"

end Source

end ApiRules
