/-!
# Numbers of a fixed width

How many values a word of so many bits has, which bounds the numbers that fit into it.
-/

namespace SeriesAlarm

def wordSize (bits : Nat) : Nat := Nat.pow 2 bits

theorem wordSize_pos (bits : Nat) : 0 < wordSize bits := Nat.pow_pos (by decide)

/-- The integers from the least of a signed word up to the greatest of an unsigned one. -/
def fitsWord (bits : Nat) (n : Int) : Bool := -(wordSize (bits - 1) : Int) ≤ n && n < wordSize bits

def fitsSigned (bits : Nat) (n : Int) : Bool :=
  -(wordSize (bits - 1) : Int) ≤ n && n < wordSize (bits - 1)

end SeriesAlarm
