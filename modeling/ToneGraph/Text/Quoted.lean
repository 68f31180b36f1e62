import ToneGraph.Number.Text
import ToneGraph.Text.Hidden
/-!
# Quoted texts

A text between quotation marks, as an error report shows it: the quotation mark and the backslash
are escaped, the usual controls have letters, and every other character that would not be seen is
spelled by its number.
-/

namespace ToneGraph.Text

/-- One character of a quoted text. -/
def escape (c : Char) : String :=
  match c with
  | '\x00' => "\\0"
  | '\t' => "\\t"
  | '\r' => "\\r"
  | '\n' => "\\n"
  | '"' => "\\\""
  | '\\' => "\\\\"
  | c =>
    if isHidden c then "\\u\x7b" ++ String.ofList (Nat.toDigits 16 c.toNat) ++ "\x7d"
    else c.toString

/-- The text between quotation marks. -/
def quote (text : String) : String :=
  "\"" ++ String.join (text.toList.map escape) ++ "\""

end ToneGraph.Text
