/-!
# Blank characters

The white space of Unicode, which separates the words of an expression.
-/

namespace ToneGraph.Text

/-- Whether a character has the property `White_Space`: the five controls from tab to carriage
return, the space, and the separators of the Latin-1, Ogham, punctuation and CJK blocks. -/
def isBlank (c : Char) : Bool :=
  let code := c.toNat
  (9 ≤ code && code ≤ 13) || code == 0x20 || code == 0x85 || code == 0xa0 || code == 0x1680 ||
    (0x2000 ≤ code && code ≤ 0x200a) || code == 0x2028 || code == 0x2029 || code == 0x202f ||
    code == 0x205f || code == 0x3000

/-- The newline is blank. -/
theorem isBlank_newline : isBlank '\n' = true := rfl

/-- Every blank of ASCII is blank here. -/
theorem isBlank_of_isWhitespace {c : Char} (h : c.isWhitespace = true) : isBlank c = true := by
  simp only [Char.isWhitespace, Bool.or_eq_true, decide_eq_true_eq] at h
  rcases h with ((h | h) | h) | h <;> subst h <;> rfl

end ToneGraph.Text
