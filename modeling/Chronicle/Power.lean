-- Powers that bound and scale numbers.

namespace Chronicle

-- One more than the greatest number of so many bits.
def twoTo (bits : Nat) : Nat := Nat.pow 2 bits

-- The number that so many zeros make of a one.
def tenTo (zeros : Nat) : Nat := Nat.pow 10 zeros

end Chronicle
