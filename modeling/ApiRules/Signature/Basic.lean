import ApiRules.Signature.TypeName

/-!
Signatures: a class, a field of a class, or a method of a class, each with one canonical spelling.

| kind   | spelling                |
|--------|-------------------------|
| class  | `a.b.C`                 |
| field  | `a.b.C#name`            |
| method | `a.b.C#name(int,d.E[])` |
-/
namespace ApiRules

open Text

/-- Constructors and class initialisers are named in angle brackets; other members have a name that
may hold dollar signs. -/
def isMemberName (cs : List Char) : Bool :=
  cs == ['<', 'i', 'n', 'i', 't', '>'] || cs == ['<', 'c', 'l', 'i', 'n', 'i', 't', '>'] ||
    (!cs.isEmpty && cs.all fun c => isNameChar c || c == '$')

structure MemberName where
  chars : List Char
  isMemberName_chars : isMemberName chars

instance : DecidableEq MemberName := fun a b =>
  if h : a.chars = b.chars then .isTrue (by cases a; cases b; simp_all)
  else .isFalse fun e => h (e ▸ rfl)

namespace MemberName

def text (n : MemberName) : String := String.ofList n.chars

def parse (raw : List Char) : Except SignatureError MemberName :=
  if h : isMemberName (trim raw) then .ok ⟨trim raw, h⟩
  else .error (.invalidMember (String.ofList (trim raw)))

end MemberName

inductive Member where
  | field (name : MemberName)
  | method (name : MemberName) (params : List TypeName)
  deriving DecidableEq

namespace Member

def name : Member → MemberName
  | field name => name
  | method name _ => name

/-- The spelling after the number sign. -/
def chars : Member → List Char
  | field name => name.chars
  | method name params => name.chars ++ '(' :: joinWith ',' (params.map TypeName.chars) ++ [')']

end Member

/-- A class, a field or a method. -/
structure Signature where
  owner : Owner
  member : Option Member
  deriving DecidableEq

namespace Signature

def chars (s : Signature) : List Char :=
  match s.member with
  | none => s.owner.chars
  | some m => s.owner.chars ++ '#' :: m.chars

/-- The canonical spelling. -/
def text (s : Signature) : String := String.ofList s.chars

instance : ToString Signature := ⟨text⟩

def isClass (s : Signature) : Bool := s.member.isNone

def isMethod (s : Signature) : Bool :=
  match s.member with
  | some (.method _ _) => true
  | _ => false

def params? (s : Signature) : Option (List TypeName) :=
  match s.member with
  | some (.method _ params) => some params
  | _ => none

end Signature

end ApiRules
