/-!
Kinds of rules, and sets of kinds.
-/
namespace ApiRules

/-- In the order in which the rules of one pattern are listed. -/
inductive Kind where
  | removed
  | restrictedVisibility
  | minApiLevel
  | maxApiLevel
  | deprecated
  | sinceVersion
  deriving DecidableEq, Repr, Inhabited

namespace Kind

def all : List Kind :=
  [removed, restrictedVisibility, minApiLevel, maxApiLevel, deprecated, sinceVersion]

def rank : Kind → Nat
  | removed => 0
  | restrictedVisibility => 1
  | minApiLevel => 2
  | maxApiLevel => 3
  | deprecated => 4
  | sinceVersion => 5

protected def compare (a b : Kind) : Ordering := compare a.rank b.rank

/-- The tier in an answer, the gravest first. The two API level bounds share one. -/
def severity : Kind → Nat
  | removed => 0
  | restrictedVisibility => 1
  | minApiLevel => 2
  | maxApiLevel => 2
  | deprecated => 3
  | sinceVersion => 4

/-- A rule of an absolute kind makes what is said about wider owners irrelevant. -/
def isAbsolute : Kind → Bool
  | removed => true
  | restrictedVisibility => true
  | _ => false

def isApiBound : Kind → Bool
  | minApiLevel => true
  | maxApiLevel => true
  | _ => false

/-- Whether a bound of this kind at `level` allows fewer levels than one at `other`. -/
def tighter (kind : Kind) (level other : UInt32) : Bool :=
  if kind = minApiLevel then other < level else level < other

def name : Kind → String
  | removed => "removed"
  | restrictedVisibility => "restricted_visibility"
  | minApiLevel => "min_api_level"
  | maxApiLevel => "max_api_level"
  | deprecated => "deprecated"
  | sinceVersion => "since_version"

def ofName? (name : String) : Option Kind := all.find? fun k => k.name == name

/-- The bit of the kind in a set of kinds. -/
def bit : Kind → UInt8
  | removed => 1
  | restrictedVisibility => 2
  | minApiLevel => 4
  | maxApiLevel => 8
  | deprecated => 16
  | sinceVersion => 32

end Kind

/-- A set of kinds, a bit for each. -/
structure KindSet where
  bits : UInt8
  deriving DecidableEq, Repr

namespace KindSet

def empty : KindSet := ⟨0⟩

def insert (s : KindSet) (k : Kind) : KindSet := ⟨s.bits ||| k.bit⟩

def contains (s : KindSet) (k : Kind) : Bool := s.bits &&& k.bit == k.bit

def ofList (kinds : List Kind) : KindSet := kinds.foldl insert empty

/-- The members, in order. -/
def toList (s : KindSet) : List Kind := Kind.all.filter s.contains

end KindSet

end ApiRules
