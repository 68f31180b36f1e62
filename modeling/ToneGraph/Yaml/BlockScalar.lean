import ToneGraph.Yaml.Cursor
/-!
# Block scalars

Scalars that consist of whole lines: all that are indented as far as the first one with text on it,
or as far as the header says. The lines of a literal scalar are kept as they are, those of a folded
one are joined like the lines of other scalars, except beside a line that starts with a blank.

## Main definitions

* `BlockHeader`: what stands behind the mark of the scalar.
* `blockScalar?`: a whole block scalar.
-/

namespace ToneGraph.Yaml

/-- What becomes of the line breaks at the end of the scalar. -/
inductive Chomping where
  /-- None is kept. -/
  | strip
  /-- The first is kept. -/
  | clip
  /-- All are kept. -/
  | keep

namespace Chomping

/-- How a sign in the header asks for it. -/
def ofChar? : Char → Option Chomping
  | '-' => some strip
  | '+' => some keep
  | _ => none

/-- What is kept of the line breaks at the end. -/
def apply (breaks : List Char) : Chomping → List Char
  | strip => []
  | clip => breaks.take 1
  | keep => breaks

end Chomping

/-! ## The header -/

/-- What stands on the line of the mark. -/
structure BlockHeader where
  chomping : Chomping
  /-- How far the lines are indented, if it is said. -/
  indentation : Option Nat

/-- A sign, if one stands here, and the place behind it. -/
def sign? (p : Cursor) : Option Chomping × Cursor :=
  match p.rest.head?.bind Chomping.ofChar? with
  | some chomping => (some chomping, p.next)
  | none => (none, p)

/-- The header from behind the mark on, and the start of the next line. It holds one sign and one
digit at most, in either order, and the digit is not zero. -/
def blockHeader? (p : Cursor) : Option (BlockHeader × Cursor) := do
  let (before, p) := sign? p
  let digit := (p.rest.head?.filter Char.isDigit).map fun c => c.toNat - '0'.toNat
  if digit == some 0 then none
  let p := if digit.isSome then p.next else p
  let (behind, p) := if before.isSome then (none, p) else sign? p
  return (⟨(before <|> behind).getD .clip, digit⟩, ← p.endOfLine?)

/-! ## The lines -/

/-- Blank lines. While they are read, their breaks are collected last first. -/
structure BlankLines where
  breaks : List Char
  /-- How far the widest of them and the indentation behind them reach. -/
  width : Nat
  /-- The place behind the indentation of the next line. -/
  after : Cursor

/-- The place behind the indentation of a line, which goes no further than a limit. -/
def Cursor.skipIndent (limit : Option Nat) (p : Cursor) : Cursor :=
  let spaces := (p.rest.takeWhile (· = ' ')).length
  p.skip (limit.elim spaces fun n => min spaces (n - p.column))

theorem Cursor.length_skipIndent_le (limit : Option Nat) (p : Cursor) :
    (p.skipIndent limit).rest.length ≤ p.rest.length := by
  simp [skipIndent]

/-- Blank lines and the indentation of the line after them. A tab cannot stand in indentation. -/
def blankLinesFrom? (limit : Option Nat) (b : BlankLines) : Option BlankLines :=
  let width := max b.width (b.after.skipIndent limit).column
  if (b.after.skipIndent limit).isAt '\t' && limit.all ((b.after.skipIndent limit).column < ·) then
    none
  else
    match _hp : (b.after.skipIndent limit).rest with
    | [] => some ⟨b.breaks.reverse, width, b.after.skipIndent limit⟩
    | c :: _ =>
      if isBreak c then
        blankLinesFrom? limit ⟨c :: b.breaks, width, (b.after.skipIndent limit).next⟩
      else some ⟨b.breaks.reverse, width, b.after.skipIndent limit⟩
termination_by b.after.rest.length
decreasing_by
  have := b.after.length_skipIndent_le limit
  simp only [_hp, List.length_cons, Cursor.rest_next, List.tail_cons] at this ⊢
  omega

/-- The blank lines from here on. -/
def blankLines? (limit : Option Nat) (p : Cursor) : Option BlankLines :=
  blankLinesFrom? limit ⟨[], 0, p⟩

theorem length_after_blankLinesFrom_le {limit : Option Nat} {b r : BlankLines}
    (h : blankLinesFrom? limit b = some r) : r.after.rest.length ≤ b.after.rest.length := by
  have hindent := b.after.length_skipIndent_le limit
  unfold blankLinesFrom? at h
  split at h
  · simp at h
  · split at h
    · cases h
      exact hindent
    · next c rest hp =>
      split at h
      · have hlt : (b.after.skipIndent limit).next.rest.length < b.after.rest.length := by
          simp only [hp, List.length_cons, Cursor.rest_next, List.tail_cons] at hindent ⊢
          omega
        exact Nat.le_trans (length_after_blankLinesFrom_le h) (Nat.le_of_lt hlt)
      · cases h
        exact hindent
termination_by b.after.rest.length

/-- A line with text, and the line breaks between it and the next one. -/
structure TextLine where
  text : List Char
  breaks : List Char

/-- Whether a line starts with a blank behind its indentation. -/
def TextLine.isIndented (line : TextLine) : Bool :=
  line.text.head?.any isBlank

/-- The lines with text from here on, as long as they are indented by a column, and the place
behind them. -/
def textLines? (column : Nat) (p : Cursor) : Option (List TextLine × Cursor) :=
  if _hp : p.column ≠ column ∨ p.rest = [] then some ([], p)
  else
    let text := p.rest.takeWhile fun c => !isBreak c
    let q := p.skip text.length
    match _hb : blankLines? (some column) q.next with
    | none => none
    | some blank =>
      (textLines? column blank.after).map fun (lines, after) =>
        (⟨text, q.rest.take 1 ++ blank.breaks⟩ :: lines, after)
termination_by p.rest.length
decreasing_by
  have hle := length_after_blankLinesFrom_le _hb
  have hne : p.rest.length ≠ 0 := fun h => _hp (.inr (List.length_eq_zero_iff.1 h))
  simp only [Cursor.rest_next, List.length_tail] at hle
  have := p.length_skip text.length
  have hq : q.rest.length = p.rest.length - text.length := this
  by_cases ht : text.length = 0
  · omega
  · omega

/-- The text of some lines, each joined to the next. -/
def joinLines (folded : Bool) (chomping : Chomping) : List TextLine → List Char
  | [] => []
  | [line] => line.text ++ chomping.apply line.breaks
  | line :: next :: rest =>
    let joint :=
      if folded && !line.isIndented && !next.isIndented then fold line.breaks else line.breaks
    line.text ++ joint ++ joinLines folded chomping (next :: rest)

/-- The block scalar that starts with the mark here, and the place behind it. Its lines must be
indented by `least`, and by one column in any case; a digit in the header counts from one column
before that. -/
def blockScalar? (folded : Bool) (least : Nat) (p : Cursor) : Option (List Char × Cursor) := do
  let (header, p) ← blockHeader? p.next
  let limit := header.indentation.map (least - 1 + ·)
  let blank ← blankLines? limit p
  let column := limit.getD (max blank.width (max least 1))
  let (lines, after) ← textLines? column blank.after
  let leading :=
    match lines, header.chomping with
    | [], .strip => []
    | [], .clip => []
    | _, _ => blank.breaks
  return (leading ++ joinLines folded header.chomping lines, after)

end ToneGraph.Yaml
