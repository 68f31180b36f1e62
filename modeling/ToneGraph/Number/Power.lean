/-!
# Powers

The two powers that floats and numerals are made of.
-/

namespace ToneGraph.Number

/-- Two to a power. -/
def twoTo (k : Nat) : Nat :=
  Nat.pow 2 k

/-- Ten to a power. -/
def tenTo (k : Nat) : Nat :=
  Nat.pow 10 k

theorem twoTo_pos (k : Nat) : 0 < twoTo k :=
  Nat.pow_pos (by decide)

theorem tenTo_pos (k : Nat) : 0 < tenTo k :=
  Nat.pow_pos (by decide)

end ToneGraph.Number
