/-!
# Places in a Yaml text

Much in Yaml depends on where a thing stands: how far a line is indented, whether two things stand
on one line, how long a key is. So the text is read with a cursor that knows its line, its column
and how many bytes lie before it.

## Main definitions

* `Cursor`: a place, and the text from there on.
* `Spacing`: blanks and line breaks within a scalar, and the text they stand for.
* `Cursor.atDocumentMark`: whether a document starts or ends here.

## Main statements

* `Cursor.length_skip`: how much text is left some characters on.
* `Cursor.length_after_spacing_lt`: spacing that starts here takes a character at least.
-/

namespace ToneGraph.Yaml

/-! ## Characters -/

/-- Blanks within a line. -/
def isBlank (c : Char) : Bool :=
  c = ' ' || c = '\t'

/-- The characters that end a line, all others of the kind being brought to the first of them. -/
def isBreak (c : Char) : Bool :=
  c = '\n' || c = '\u2028' || c = '\u2029'

/-- The characters of names. -/
def isNameChar (c : Char) : Bool :=
  c.isAlphanum || c = '_' || c = '-'

/-- Whether a text starts with a line break or its end. -/
def atLineEnd : List Char → Bool
  | [] => true
  | c :: _ => isBreak c

/-- Whether a text starts with a blank, a line break or its end. -/
def atGap : List Char → Bool
  | [] => true
  | c :: _ => isBlank c || isBreak c

/-- Line breaks of two characters, or of one that does not count as one here, as line feeds. -/
def plainBreaks : List Char → List Char
  | '\r' :: '\n' :: rest => '\n' :: plainBreaks rest
  | c :: rest => (if c = '\r' || c = '\u0085' then '\n' else c) :: plainBreaks rest
  | [] => []

/-! ## Cursors -/

/-- A place in a text. -/
structure Cursor where
  /-- The text from here on. -/
  rest : List Char
  line : Nat
  /-- How many characters stand before it on its line. -/
  column : Nat
  /-- How many bytes stand before it. -/
  offset : Nat

namespace Cursor

/-- The start of a text. -/
def start (text : List Char) : Cursor :=
  ⟨text, 0, 0, 0⟩

/-- The place after the next character. -/
def next (p : Cursor) : Cursor :=
  match p.rest with
  | [] => p
  | c :: rest =>
    if isBreak c then ⟨rest, p.line + 1, 0, p.offset + c.utf8Size⟩
    else ⟨rest, p.line, p.column + 1, p.offset + c.utf8Size⟩

/-- The place some characters on. -/
def skip (p : Cursor) : Nat → Cursor
  | 0 => p
  | count + 1 => p.next.skip count

@[simp] theorem rest_next (p : Cursor) : p.next.rest = p.rest.tail := by
  unfold next
  split
  · next h => simp [h]
  · next h => split <;> simp [h]

@[simp] theorem rest_skip (p : Cursor) (count : Nat) : (p.skip count).rest = p.rest.drop count := by
  induction count generalizing p with
  | zero => rfl
  | succ count ih => simp [skip, ih]

theorem length_skip (p : Cursor) (count : Nat) :
    (p.skip count).rest.length = p.rest.length - count := by
  rw [rest_skip, List.length_drop]

/-- The place after all characters of a kind. -/
def skipWhile (p : Cursor) (test : Char → Bool) : Cursor :=
  p.skip (p.rest.takeWhile test).length

/-- The place from which on a text is left, which must be an end of this one. -/
def skipTo (p : Cursor) (rest : List Char) : Cursor :=
  p.skip (p.rest.length - rest.length)

/-- Whether a character stands here. -/
def isAt (p : Cursor) (c : Char) : Bool :=
  p.rest.head? == some c

theorem length_skipWhile_le (p : Cursor) (test : Char → Bool) :
    (p.skipWhile test).rest.length ≤ p.rest.length := by
  rw [skipWhile, length_skip]
  exact Nat.sub_le ..

/-- Skips a comment, if one starts here. -/
def skipComment (p : Cursor) : Cursor :=
  if p.isAt '#' then p.skipWhile fun c => !isBreak c else p

theorem length_skipComment_le (p : Cursor) : p.skipComment.rest.length ≤ p.rest.length := by
  unfold skipComment
  split
  · exact p.length_skipWhile_le _
  · exact Nat.le_refl _

/-- The start of the next line, if there is nothing on this one but blanks and a comment. -/
def endOfLine? (p : Cursor) : Option Cursor :=
  let p := (p.skipWhile isBlank).skipComment
  if atLineEnd p.rest then some p.next else none

/-- Whether three characters of a kind stand alone at the start of a line. -/
def atMark (p : Cursor) (mark : Char) : Bool :=
  p.column = 0 && p.rest.take 3 == [mark, mark, mark] && atGap (p.rest.drop 3)

/-- Whether a document starts or ends here. -/
def atDocumentMark (p : Cursor) : Bool :=
  p.atMark '-' || p.atMark '.'

end Cursor

/-! ## Spacing within scalars -/

/-- What line breaks in a row stand for: a line feed alone is a space, and before others it is
lost. Breaks of other kinds stand for themselves. -/
def fold : List Char → List Char
  | ['\n'] => [' ']
  | '\n' :: more => more
  | breaks => breaks

/-- Blanks and line breaks in a row. -/
structure Spacing where
  /-- The blanks before the first line break. -/
  blanks : List Char
  /-- The line breaks. -/
  breaks : List Char
  /-- The place behind them. -/
  after : Cursor

namespace Spacing

/-- No spacing at all. -/
def empty (p : Cursor) : Spacing :=
  ⟨[], [], p⟩

/-- Whether a line ends within. -/
def crosses (s : Spacing) : Bool :=
  !s.breaks.isEmpty

/-- The text that spacing stands for. Blanks beside a line break are lost. -/
def text (s : Spacing) : List Char :=
  if s.crosses then fold s.breaks else s.blanks

end Spacing

/-- The blanks and line breaks from here on. -/
def Cursor.spacing (p : Cursor) : Spacing :=
  let gap := p.rest.takeWhile fun c => isBlank c || isBreak c
  ⟨gap.takeWhile isBlank, gap.filter isBreak, p.skip gap.length⟩

theorem drop_length_takeWhile (test : Char → Bool) (text : List Char) :
    text.drop (text.takeWhile test).length = text.dropWhile test := by
  induction text with
  | nil => rfl
  | cons c text ih => cases h : test c <;> simp [h, ih]

theorem Cursor.rest_after_spacing (p : Cursor) :
    p.spacing.after.rest = p.rest.dropWhile fun c => isBlank c || isBreak c := by
  simp only [spacing, rest_skip, drop_length_takeWhile]

theorem Cursor.length_after_spacing_le (p : Cursor) :
    p.spacing.after.rest.length ≤ p.rest.length := by
  rw [rest_after_spacing]
  exact (List.dropWhile_sublist _).length_le

theorem Cursor.length_after_spacing_lt {p : Cursor} {c : Char} {rest : List Char}
    (h : p.rest = c :: rest) (hc : (isBlank c || isBreak c) = true) :
    p.spacing.after.rest.length < p.rest.length := by
  have hdrop : p.spacing.after.rest = rest.dropWhile fun c => isBlank c || isBreak c := by
    rw [rest_after_spacing, h]
    simp only [List.dropWhile_cons, hc, if_true]
  rw [hdrop, h]
  exact Nat.lt_succ_of_le (List.dropWhile_sublist _).length_le

/-- Whether one of the lines that start within the spacing from here on has a tab before a
column. -/
def Cursor.indentsByTab (p : Cursor) (column : Nat) : Bool :=
  let gap := p.rest.takeWhile fun c => isBlank c || isBreak c
  (gap.splitOnP isBreak).tail.any fun line => (line.take column).contains '\t'

end ToneGraph.Yaml
