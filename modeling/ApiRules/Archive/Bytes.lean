import ApiRules.Word

/-!
Numbers and texts as bytes. The least significant byte of a number comes first; texts are UTF-8.
-/
namespace ApiRules.Archive

abbrev Bytes := List UInt8

/-- A number in `size` bytes. -/
def ofNat : (size : Nat) → Nat → Bytes
  | 0, _ => []
  | size + 1, n => UInt8.ofNat n :: ofNat size (n / 256)

def toNat : Bytes → Nat
  | [] => 0
  | b :: bs => b.toNat + 256 * toNat bs

/-- A signed number of 32 bits. -/
def ofInt (n : Int) : Bytes := ofNat 4 (n % wordCount 32).toNat

def toInt (bs : Bytes) : Int := (toNat bs : Int).bmod (wordCount 32)

def ofText (s : String) : Bytes := s.toUTF8.data.toList

def toText? (bs : Bytes) : Option String := String.fromUTF8? ⟨bs.toArray⟩

/-- The bytes from a position on, as many as there are up to `size`. -/
def slice (data : Array UInt8) (position size : Nat) : Bytes :=
  (data.extract position (position + size)).toList

def zeros (n : Nat) : Bytes := List.replicate n 0

/-- How many bytes bring a position to the next multiple of four. -/
def padding (position : Nat) : Nat := (4 - position % 4) % 4

end ApiRules.Archive
