/-!
An index: for each key the positions where it occurs, in ascending order.
-/
namespace ApiRules

structure Index (κ : Type) where
  slots : List (κ × List Nat)

namespace Index

variable {κ : Type} [DecidableEq κ]

def empty : Index κ := ⟨[]⟩

def get (index : Index κ) (key : κ) : List Nat := (index.slots.lookup key).getD []

/-- The slots with one more position in the slot of a key. -/
def addTo (key : κ) (position : Nat) : List (κ × List Nat) → List (κ × List Nat)
  | [] => [(key, [position])]
  | (k, ps) :: slots =>
    if k = key then (k, ps ++ [position]) :: slots else (k, ps) :: addTo key position slots

def add (index : Index κ) (key : κ) (position : Nat) : Index κ :=
  ⟨addTo key position index.slots⟩

/-- All positions, slot after slot. -/
def positions (index : Index κ) : List Nat := index.slots.flatMap Prod.snd

end Index

end ApiRules
