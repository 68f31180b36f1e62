import ToneGraph.Yaml.Cursor
import ToneGraph.Yaml.Number
/-!
# Quoted scalars

In single quotes a quote is written twice. In double quotes a backslash escapes the character after
it. Either kind may go over several lines, whose breaks are folded; the mark of a document cannot
stand within.

## Main definitions

* `escaped?`: what an escape stands for.
* `quoted?`: a scalar in quotes.
-/

namespace ToneGraph.Yaml

/-- The character that a number of hexadecimal digits stands for. -/
def escapedCode? (length : Nat) (text : List Char) : Option Char :=
  let code := text.take length
  if code.length < length then none
  else (digits? 16 code).bind fun n => if n.isValidChar then some (Char.ofNat n) else none

/-- The characters with escapes of their own. -/
def escapes : List (Char × Nat) :=
  [('0', 0), ('a', 7), ('b', 8), ('t', 9), ('\t', 9), ('n', 10), ('v', 11), ('f', 12), ('r', 13),
    ('e', 27), (' ', 32), ('"', 34), ('/', 47), ('\\', 92), ('N', 0x85), ('_', 0xa0),
    ('L', 0x2028), ('P', 0x2029)]

/-- The character of an escape, from what follows the backslash, and how many characters it
takes. -/
def escaped? : List Char → Option (Char × Nat)
  | 'x' :: rest => (escapedCode? 2 rest).map (·, 3)
  | 'u' :: rest => (escapedCode? 4 rest).map (·, 5)
  | 'U' :: rest => (escapedCode? 8 rest).map (·, 9)
  | c :: _ => (escapes.lookup c).map fun n => (Char.ofNat n, 1)
  | [] => none

/-- The text of a scalar in quotes from here on, and the place behind the quote that ends it. The
text so far is given last character first. -/
def quotedFrom? (quote : Char) (done : List Char) (p : Cursor) : Option (List Char × Cursor) :=
  match _hp : p.rest with
  | [] => none
  | c :: rest =>
    if c = quote then
      if quote = '\'' && p.next.isAt quote then quotedFrom? quote (quote :: done) (p.skip 2)
      else some (done.reverse, p.next)
    else if c = '\\' && quote = '"' then
      if rest.head?.any isBreak then
        let s := (p.skip 2).spacing
        if s.after.atDocumentMark then none
        else quotedFrom? quote (s.breaks.reverse ++ done) s.after
      else
        match escaped? rest with
        | some (d, length) => quotedFrom? quote (d :: done) (p.skip (length + 1))
        | none => none
    else if _hc : (isBlank c || isBreak c) = true then
      if p.spacing.after.atDocumentMark then none
      else quotedFrom? quote (p.spacing.text.reverse ++ done) p.spacing.after
    else quotedFrom? quote (c :: done) p.next
termination_by p.rest.length
decreasing_by
  · simp only [_hp, Cursor.length_skip, List.length_cons]
    omega
  · have := (p.skip 2).length_after_spacing_le
    simp only [_hp, Cursor.length_skip, List.length_cons] at this ⊢
    omega
  · simp only [_hp, Cursor.length_skip, List.length_cons]
    omega
  · exact Cursor.length_after_spacing_lt _hp _hc
  · simp only [_hp, Cursor.rest_next, List.tail_cons, List.length_cons]
    omega

/-- The text of a scalar in quotes, which starts with the quote here, and the place behind it. -/
def quoted? (quote : Char) (p : Cursor) : Option (List Char × Cursor) :=
  quotedFrom? quote [] p.next

end ToneGraph.Yaml
