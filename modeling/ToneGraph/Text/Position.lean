/-!
# Places in a text

Errors point at a byte of the UTF-8 source; people look for a line and a column. The column counts
characters, and an offset inside a character or past the end means the last boundary before it.

## Main definitions

* `byteLength`: how many bytes a run of characters takes.
* `charsBefore`: the characters that end at or before an offset.
* `lineColumn`: line and column, both from one.
-/

namespace ToneGraph.Text

/-- How many bytes the characters take in UTF-8. -/
def byteLength (text : List Char) : Nat :=
  text.foldr (fun c n => c.utf8Size + n) 0

@[simp] theorem byteLength_nil : byteLength [] = 0 := rfl

@[simp] theorem byteLength_cons (c : Char) (text : List Char) :
    byteLength (c :: text) = c.utf8Size + byteLength text := rfl

@[simp] theorem byteLength_append (a b : List Char) :
    byteLength (a ++ b) = byteLength a + byteLength b := by
  induction a with
  | nil => simp
  | cons c a ih => simp [ih, Nat.add_assoc]

/-- The characters that lie wholly within the first `offset` bytes. -/
def charsBefore : List Char → Nat → List Char
  | [], _ => []
  | c :: text, offset =>
    if c.utf8Size ≤ offset then c :: charsBefore text (offset - c.utf8Size) else []

/-- The characters after the last newline. -/
def lastLine (text : List Char) : List Char :=
  (text.reverse.takeWhile (· != '\n')).reverse

/-- Line and column of a byte offset, both counted from one. -/
def lineColumn (text : String) (offset : Nat) : Nat × Nat :=
  let before := charsBefore text.toList offset
  (before.count '\n' + 1, (lastLine before).length + 1)

/-- The characters before an offset take no more bytes than the offset says. -/
theorem byteLength_charsBefore_le (text : List Char) (offset : Nat) :
    byteLength (charsBefore text offset) ≤ offset := by
  induction text generalizing offset with
  | nil => simp [charsBefore]
  | cons c text ih =>
    unfold charsBefore
    split
    · have := ih (offset - c.utf8Size)
      simp only [byteLength_cons]
      omega
    · simp

end ToneGraph.Text
