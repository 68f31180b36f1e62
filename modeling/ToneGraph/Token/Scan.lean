import ToneGraph.Number.Numeral
import ToneGraph.Text.Blank
import ToneGraph.Text.Position
import ToneGraph.Token
/-!
# Scanning a source into tokens

The source alternates between gaps (blanks and comments) and lexemes. Each function here takes
the characters that are left and gives back what it took and what follows it, so offsets are sums
of the bytes taken and the loop ends because the rest gets shorter.

## Main definitions

* `skipGap`: blanks, line comments and closed block comments.
* `spanNumber`, `spanString`: the longest number and the string that start here.
* `readLexeme`: the word that starts with a given character.
* `Token.scan`: all tokens of a source, the end of input last.

## Main statements

* `skipGap_length_le` and `readLexeme_length_le`: the rest never grows.
* `Lexeme.spelling_append_rest`: a lexeme and its rest are the text it was read from.
-/

namespace ToneGraph

open Text Number

/-! ## Gaps -/

/-- What lies behind a gap. -/
structure Gap where
  rest : List Char
  offset : Nat
  /-- Where a block comment opens that is never closed. -/
  unclosed : Option Nat
  deriving DecidableEq, Repr

/-- A block comment from behind its opening to its first closing, and the rest. -/
def spanComment : List Char → Option (List Char × List Char)
  | [] => none
  | [_] => none
  | c :: d :: rest =>
    if c = '*' ∧ d = '/' then some ([c, d], rest)
    else (spanComment (d :: rest)).map fun (body, rest) => (c :: body, rest)

theorem spanComment_append {text body rest : List Char}
    (h : spanComment text = some (body, rest)) : body ++ rest = text := by
  fun_induction spanComment text generalizing body rest with
  | case1 => simp at h
  | case2 => simp at h
  | case3 c d r hc =>
    simp only [Option.some.injEq, Prod.mk.injEq] at h
    simp [← h.1, ← h.2]
  | case4 c d r _ ih =>
    obtain ⟨⟨b, s⟩, hb, hs⟩ := Option.map_eq_some_iff.1 h
    simp only [Prod.mk.injEq] at hs
    simp [← hs.1, ← hs.2, ih hb]

theorem spanComment_length_le {text body rest : List Char}
    (h : spanComment text = some (body, rest)) : rest.length ≤ text.length := by
  rw [← spanComment_append h]
  simp

theorem length_dropWhile_le {α : Type} (p : α → Bool) (l : List α) :
    (l.dropWhile p).length ≤ l.length :=
  (List.dropWhile_sublist p).length_le

/-- Skips blanks and comments. A line comment ends before its newline, a block comment behind its
first closing; one that is never closed takes the rest of the source. -/
def skipGap (text : List Char) (offset : Nat) : Gap :=
  match text with
  | [] => ⟨[], offset, none⟩
  | c :: rest =>
    if isBlank c then skipGap rest (offset + c.utf8Size)
    else if c = '/' then
      match rest with
      | '/' :: line =>
        skipGap (line.dropWhile (· != '\n'))
          (offset + 2 + byteLength (line.takeWhile (· != '\n')))
      | '*' :: inside =>
        match h : spanComment inside with
        | some (body, behind) => skipGap behind (offset + 2 + byteLength body)
        | none => ⟨[], offset + 2 + byteLength inside, some offset⟩
      | _ => ⟨c :: rest, offset, none⟩
    else ⟨c :: rest, offset, none⟩
termination_by text.length
decreasing_by
  · simp
  · have := length_dropWhile_le (· != '\n') line
    simp only [List.length_cons]
    omega
  · have := spanComment_length_le h
    simp only [List.length_cons]
    omega

theorem skipGap_length_le (text : List Char) (offset : Nat) :
    (skipGap text offset).rest.length ≤ text.length := by
  fun_induction skipGap text offset with
  | case1 => simp
  | case2 _ _ _ _ ih => simp only [List.length_cons]; omega
  | case3 _ line _ ih =>
    have := length_dropWhile_le (· != '\n') line
    simp only [List.length_cons]
    omega
  | case4 _ inside body behind h _ ih =>
    have := spanComment_length_le h
    simp only [List.length_cons]
    omega
  | case5 => simp
  | case6 => simp
  | case7 => simp

/-! ## Numbers -/

/-- The spelling of a number in its three parts: digits, point and digits, letter and power. -/
structure NumberSpelling where
  whole : List Char
  fraction : List Char
  exponent : List Char
  deriving DecidableEq, Repr

/-- The spelling as one run of characters. -/
def NumberSpelling.chars (n : NumberSpelling) : List Char :=
  n.whole ++ n.fraction ++ n.exponent

/-- The value of a spelling. -/
def NumberSpelling.value (n : NumberSpelling) : Float :=
  ((numeral? n.chars).map Numeral.toFloat).getD (0.0 / 0.0)

/-- A point with the digits behind it; a point with no digit behind it is left alone. -/
def spanFraction : List Char → List Char × List Char
  | '.' :: c :: rest =>
    if c.isDigit then ('.' :: (spanDigits (c :: rest)).1, (spanDigits (c :: rest)).2)
    else ([], '.' :: c :: rest)
  | text => ([], text)

/-- The sign that stands at the start, if there is one. -/
def takeSign : List Char → List Char
  | c :: _ => if c = '+' ∨ c = '-' then [c] else []
  | [] => []

/-- The power of ten: the letter, a sign if there is one, and digits. Without a digit none of it
belongs to the number. -/
def spanExponent : List Char → List Char × List Char
  | [] => ([], [])
  | e :: rest =>
    let sign := takeSign rest
    let power := spanDigits (rest.drop sign.length)
    if (e = 'e' ∨ e = 'E') ∧ power.1 ≠ [] then (e :: (sign ++ power.1), power.2)
    else ([], e :: rest)

/-- The longest number at the start of the text. -/
def spanNumber (text : List Char) : NumberSpelling × List Char :=
  let whole := spanDigits text
  let fraction := spanFraction whole.2
  let exponent := spanExponent fraction.2
  (⟨whole.1, fraction.1, exponent.1⟩, exponent.2)

theorem spanDigits_append (text : List Char) :
    (spanDigits text).1 ++ (spanDigits text).2 = text :=
  List.takeWhile_append_dropWhile

theorem spanFraction_append (text : List Char) :
    (spanFraction text).1 ++ (spanFraction text).2 = text := by
  unfold spanFraction
  split
  · split
    · simpa using spanDigits_append _
    · rfl
  · rfl

theorem takeSign_append_drop (text : List Char) :
    takeSign text ++ text.drop (takeSign text).length = text := by
  unfold takeSign
  split
  · split <;> simp
  · rfl

theorem spanExponent_append (text : List Char) :
    (spanExponent text).1 ++ (spanExponent text).2 = text := by
  cases text with
  | nil => rfl
  | cons e rest =>
    simp only [spanExponent]
    split
    · simp only [List.cons_append, List.append_assoc, spanDigits_append, takeSign_append_drop]
    · rfl

theorem spanNumber_append (text : List Char) :
    (spanNumber text).1.chars ++ (spanNumber text).2 = text := by
  simp only [spanNumber, NumberSpelling.chars, List.append_assoc, spanExponent_append,
    spanFraction_append, spanDigits_append]

/-! ## Strings -/

/-- What a string stands for, how it is spelled behind its opening quote, and whether its closing
quote was found. -/
structure StringSpan where
  value : List Char
  spelling : List Char
  rest : List Char
  closed : Bool
  deriving DecidableEq, Repr

/-- The character that an escaped character stands for. -/
def unescape : Char → Char
  | 'n' => '\n'
  | 't' => '\t'
  | 'r' => '\r'
  | '0' => '\x00'
  | c => c

/-- Reads a string from behind its opening quote. A backslash takes the next character with it, so
an escaped quote does not close the string. -/
def spanString (quote : Char) : List Char → StringSpan
  | [] => ⟨[], [], [], false⟩
  | c :: text =>
    if c = quote then ⟨[], [c], text, true⟩
    else if c = '\\' then
      match text with
      | [] => ⟨[], [c], [], false⟩
      | e :: rest =>
        let s := spanString quote rest
        ⟨unescape e :: s.value, c :: e :: s.spelling, s.rest, s.closed⟩
    else
      let s := spanString quote text
      ⟨c :: s.value, c :: s.spelling, s.rest, s.closed⟩

theorem spanString_append (quote : Char) (text : List Char) :
    (spanString quote text).spelling ++ (spanString quote text).rest = text := by
  fun_induction spanString quote text with
  | case1 => rfl
  | case2 => rfl
  | case3 => rfl
  | case4 _ _ _ _ ih => simpa using ih
  | case5 _ _ _ _ _ ih => simpa using ih

/-! ## Words -/

/-- A word with its spelling and what follows it. -/
structure Lexeme where
  kind : TokenKind
  text : List Char
  spelling : List Char
  rest : List Char

/-- Characters that start an identifier. -/
def isIdentifierStart (c : Char) : Bool :=
  c.isAlpha || c == '_'

/-- Characters that continue an identifier. -/
def isIdentifierChar (c : Char) : Bool :=
  c.isAlphanum || c == '_'

/-- The kind of a character that is a word of its own. -/
def singleKind (c : Char) : TokenKind :=
  match c with
  | '(' => .leftParen
  | ')' => .rightParen
  | '[' => .leftBracket
  | ']' => .rightBracket
  | '{' => .leftBrace
  | '}' => .rightBrace
  | ',' => .comma
  | ';' => .semicolon
  | '.' => .dot
  | c =>
    match Operator.ofChar? c with
    | some op => .operator op
    | none => .invalid (.unexpectedChar c)

/-- Whether a number starts here: a digit, or a point with a digit behind it. -/
def startsNumber (c : Char) (rest : List Char) : Bool :=
  c.isDigit || (c == '.' && (rest.head?.any Char.isDigit))

/-- Reads the word that starts with `c`. -/
def readLexeme (c : Char) (rest : List Char) : Lexeme :=
  if startsNumber c rest then
    let (n, behind) := spanNumber (c :: rest)
    ⟨.number n.value, n.chars, n.chars, behind⟩
  else if c = '"' ∨ c = '\'' then
    let s := spanString c rest
    let kind := if s.closed then .string (String.ofList s.value) else .invalid .unterminatedString
    ⟨kind, s.value, c :: s.spelling, s.rest⟩
  else if isIdentifierStart c then
    let name := c :: rest.takeWhile isIdentifierChar
    ⟨.identifier, name, name, rest.dropWhile isIdentifierChar⟩
  else ⟨singleKind c, [c], [c], rest⟩

/-- A lexeme and its rest are the text it was read from. -/
theorem Lexeme.spelling_append_rest (c : Char) (rest : List Char) :
    (readLexeme c rest).spelling ++ (readLexeme c rest).rest = c :: rest := by
  unfold readLexeme
  split
  · exact spanNumber_append (c :: rest)
  · split
    · simp [spanString_append]
    · split
      · simp
      · rfl

theorem spanFraction_ne_nil {c : Char} {rest : List Char} (h : c.isDigit = true) :
    (spanFraction ('.' :: c :: rest)).1 ≠ [] := by
  simp [spanFraction, h]

/-- A word has at least one character. -/
theorem Lexeme.spelling_ne_nil (c : Char) (rest : List Char) :
    (readLexeme c rest).spelling ≠ [] := by
  unfold readLexeme
  split
  · rename_i h
    simp only [startsNumber, Bool.or_eq_true, Bool.and_eq_true, beq_iff_eq] at h
    simp only [spanNumber, NumberSpelling.chars, ne_eq, List.append_eq_nil_iff, not_and, and_imp]
    rcases h with h | ⟨rfl, h⟩
    · simp [spanDigits, h]
    · cases rest with
      | nil => simp at h
      | cons d rest =>
        have hd : d.isDigit = true := by simpa using h
        have hdot : Char.isDigit '.' = false := rfl
        intro _ hf
        simp [spanDigits, hdot] at hf
        exact absurd hf (spanFraction_ne_nil hd)
  · split
    · simp
    · split <;> simp

theorem readLexeme_length_le (c : Char) (rest : List Char) :
    (readLexeme c rest).rest.length ≤ rest.length := by
  have happ := congrArg List.length (Lexeme.spelling_append_rest c rest)
  have hpos := List.length_pos_iff.2 (Lexeme.spelling_ne_nil c rest)
  simp only [List.length_append, List.length_cons] at happ
  omega

/-! ## The token list -/

/-- The tokens of the text that starts at `offset`. A comment that is never closed leaves an
invalid token at the end of the source. -/
def scanFrom (text : List Char) (offset : Nat) : List Token :=
  let gap := skipGap text offset
  match gap.unclosed with
  | some start =>
    [⟨.invalid (.unterminatedComment start), "", gap.offset⟩, ⟨.eof, "", gap.offset⟩]
  | none =>
    match _h : gap.rest with
    | [] => [⟨.eof, "", gap.offset⟩]
    | c :: rest =>
      let lexeme := readLexeme c rest
      ⟨lexeme.kind, String.ofList lexeme.text, gap.offset⟩ ::
        scanFrom lexeme.rest (gap.offset + byteLength lexeme.spelling)
termination_by text.length
decreasing_by
  have hgap := skipGap_length_le text offset
  have hword := readLexeme_length_le c rest
  rw [_h] at hgap
  simp only [List.length_cons] at hgap
  omega

/-- All tokens of a source. The last one is the end of input, and there is no other. -/
def Token.scan (source : String) : List Token :=
  scanFrom source.toList 0

end ToneGraph
