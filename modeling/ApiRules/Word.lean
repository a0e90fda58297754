/-!
Words: numbers of a fixed count of bits.
-/
namespace ApiRules

/-- How many words have this many bits. -/
def wordCount (bits : Nat) : Nat := Nat.pow 2 bits

theorem wordCount_zero : wordCount 0 = 1 := rfl

theorem wordCount_succ (bits : Nat) : wordCount (bits + 1) = wordCount bits * 2 := rfl

theorem wordCount_pos (bits : Nat) : 0 < wordCount bits := Nat.pow_pos (by decide)

end ApiRules
