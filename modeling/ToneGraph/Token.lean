import ToneGraph.Number.Text
/-!
# Tokens

The words of an expression. Scanning never fails: what is no word of the language becomes an
`invalid` token that says why, and whoever reads the tokens decides when to complain.

## Main definitions

* `Operator`: the thirteen operator characters, of which expressions use four.
* `LexIssue`: why a piece of text is no word.
* `TokenKind` and `Token`: a word, its text and where it starts.
-/

namespace ToneGraph

/-- The characters that stand alone as operators. -/
inductive Operator where
  | plus | minus | star | slash | equal | less | greater
  | bang | ampersand | pipe | caret | tilde | percent
  deriving DecidableEq, Repr

namespace Operator

/-- Every operator once. -/
def all : List Operator :=
  [plus, minus, star, slash, equal, less, greater, bang, ampersand, pipe, caret, tilde, percent]

/-- The character an operator is written as. -/
def char : Operator → Char
  | plus => '+'
  | minus => '-'
  | star => '*'
  | slash => '/'
  | equal => '='
  | less => '<'
  | greater => '>'
  | bang => '!'
  | ampersand => '&'
  | pipe => '|'
  | caret => '^'
  | tilde => '~'
  | percent => '%'

/-- The operator that a character stands for. -/
def ofChar? (c : Char) : Option Operator :=
  all.find? fun op => op.char == c

theorem ofChar?_char (op : Operator) : ofChar? op.char = some op := by
  cases op <;> rfl

theorem char_of_ofChar? {c : Char} {op : Operator} (h : ofChar? c = some op) : op.char = c := by
  have := List.find?_some h
  simpa using this

end Operator

/-- Why a piece of text is no word. -/
inductive LexIssue where
  | unexpectedChar (c : Char)
  | unterminatedString
  /-- The block comment opened at this offset is never closed. -/
  | unterminatedComment (start : Nat)
  deriving DecidableEq, Repr

/-- The wording of an issue. -/
def LexIssue.message : LexIssue → String
  | .unexpectedChar c => "unexpected character '" ++ c.toString ++ "'"
  | .unterminatedString => "unterminated string literal"
  | .unterminatedComment start => s!"unterminated block comment starting at offset {start}"

/-- The kinds of tokens. -/
inductive TokenKind where
  | number (value : Float)
  | string (value : String)
  | identifier
  | operator (op : Operator)
  | leftParen
  | rightParen
  | leftBracket
  | rightBracket
  | leftBrace
  | rightBrace
  | comma
  | semicolon
  | dot
  | invalid (issue : LexIssue)
  | eof
  deriving DecidableEq

/-- How an error message names a token. -/
def TokenKind.describe : TokenKind → String
  | .number value => "number " ++ Number.plain (Number.ofFloat value)
  | .string _ => "string literal"
  | .identifier => "identifier"
  | .operator op => "'" ++ op.char.toString ++ "'"
  | .leftParen => "'('"
  | .rightParen => "')'"
  | .leftBracket => "'['"
  | .rightBracket => "']'"
  | .leftBrace => "'\x7b'"
  | .rightBrace => "'\x7d'"
  | .comma => "','"
  | .semicolon => "';'"
  | .dot => "'.'"
  | .invalid issue => issue.message
  | .eof => "end of input"

/-- A word of the source. The text is what was read, for a string what it stands for; the offset
counts bytes of UTF-8. -/
structure Token where
  kind : TokenKind
  text : String
  offset : Nat
  deriving DecidableEq

end ToneGraph
