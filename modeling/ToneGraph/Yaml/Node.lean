import ToneGraph.Yaml.Token
/-!
# Yaml nodes

The data that a Yaml document holds, and what a scalar can be read as. A plain scalar can be read as
anything that its text spells, whatever its tag says; a literal one as what its tag says; a quoted
one is text and nothing else.
-/

namespace ToneGraph.Yaml

/-- A node of a document. -/
inductive Node where
  | scalar (style : Style) (tag : Option String) (text : String)
  | sequence (items : List Node)
  /-- The entries in the order of the document, repeated keys included. -/
  | mapping (entries : List (Node × Node))
  /-- The node with the anchor of a number. -/
  | alias (number : Nat)

namespace Node

/-- What stands where nothing is written. -/
def empty : Node :=
  scalar .plain none ""

/-- The text of a scalar of any kind. -/
def text? : Node → Option String
  | scalar _ _ text => some text
  | _ => none

/-- Whether the node is a plain scalar without text. -/
def isEmpty : Node → Bool
  | scalar .plain _ text => text.isEmpty
  | _ => false

/-- The text of a scalar that may be read as what a tag says. -/
def textAs? (tag : String) : Node → Option String
  | scalar .plain _ text => some text
  | scalar .literal found text => if found = some tag then some text else none
  | _ => none

/-- A whole number below a bound. -/
def natural? (bound : Nat) (n : Node) : Option Nat :=
  ((n.textAs? Tag.int).bind whole?).filter (· < bound)

/-- A float. -/
def float? (n : Node) : Option Float :=
  (n.textAs? Tag.float).bind Yaml.float?

/-- Whether a text is a word for nothing. -/
def isNullWord (text : String) : Bool :=
  ["~", "null", "Null", "NULL"].contains text

/-- Nothing, or what a reader makes of the node. A plain scalar stands for nothing if it is a word
for it, or empty without a tag. The tag of nothing leaves no other choice. -/
def optional? (read : Node → Option α) (n : Node) : Option (Option α) :=
  match n with
  | scalar .plain none text =>
    if text.isEmpty || isNullWord text then some none else (read n).map some
  | scalar .plain (some tag) text =>
    if tag = Tag.null then (if isNullWord text then some none else none) else (read n).map some
  | _ => (read n).map some

end Node

end ToneGraph.Yaml
