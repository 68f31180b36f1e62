import ToneGraph.Yaml.Tag
/-!
# Yaml tokens

The words of a Yaml text. Brackets, commas and the like are tokens, and so are the ends of what is
shown by indentation alone: where a collection in block form begins and ends there is a token too,
so that whoever reads the tokens need not look at columns.

## Main definitions

* `Style`: how a scalar is written.
* `Token`: a word.
-/

namespace ToneGraph.Yaml

/-- How a scalar is written. -/
inductive Style where
  | plain | singleQuoted | doubleQuoted | literal | folded
  deriving DecidableEq, Repr

/-- A word of a Yaml text. -/
inductive Token where
  /-- The version of the format that a document asks for. -/
  | version (major minor : Nat)
  /-- What a handle stands for in the tags of a document. -/
  | declaration (handle start : String)
  | documentStart
  | documentEnd
  /-- A sequence whose items are marked by dashes begins. -/
  | beginSequence
  /-- A mapping whose entries stand on lines of their own begins. -/
  | beginMapping
  /-- A collection in block form ends. -/
  | endBlock
  | openSequence
  | closeSequence
  | openMapping
  | closeMapping
  | comma
  | dash
  /-- A key begins, with or without a question mark. -/
  | key
  /-- A value begins: a colon. -/
  | value
  | alias (name : String)
  | anchor (name : String)
  | tag (tag : Tag)
  | scalar (style : Style) (text : String)
  deriving DecidableEq

end ToneGraph.Yaml
