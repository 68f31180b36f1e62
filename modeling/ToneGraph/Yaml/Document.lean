import ToneGraph.Yaml.Node
import ToneGraph.Yaml.Token.Scan
/-!
# Yaml documents

A document is a node with the nodes that its anchors name. It is read from tokens by one reader for
each kind of node.

## Main definitions

* `Document`: the root, and what aliases stand for.
* `NodeReader.nodeFuel`: a node of any kind.
* `Document.ofText?`: the one document of a text.
-/

namespace ToneGraph.Yaml

/-- A document. -/
structure Document where
  root : Node
  /-- The nodes with anchors, by their numbers. -/
  anchored : List (Nat × Node)

namespace Document

/-- What a node stands for. A node with an anchor is never an alias itself. -/
def follow (d : Document) : Node → Node
  | .alias number => (d.anchored.lookup number).getD (.alias number)
  | n => n

end Document

/-! ## Readers -/

/-- What a reader of nodes knows. -/
structure ReaderState where
  tokens : List Token
  /-- What the handles of tags stand for in this document. -/
  handles : List (String × String)
  /-- The numbers of anchors by name, the last one first. Anchors are counted where they are
  written, before the nodes behind them. -/
  numbers : List (String × Nat)
  /-- The nodes with anchors that are complete. -/
  anchored : List (Nat × Node)

/-- A reader of what tokens stand for. -/
abbrev NodeReader := StateT ReaderState Option

namespace NodeReader

/-- The next token. -/
def peek : NodeReader (Option Token) := do
  return (← get).tokens.head?

/-- Skips the next token. -/
def skip : NodeReader Unit :=
  modify fun s => { s with tokens := s.tokens.tail }

/-- Skips the next token if it is a given one, and says whether it was. -/
def take (token : Token) : NodeReader Bool := do
  if (← peek) == some token then
    skip
    return true
  else
    return false

/-- Skips a token that must come next. -/
def expect (token : Token) : NodeReader Unit := do
  if !(← take token) then
    failure

/-- Whether the next token is one of some. -/
def isNext (tokens : List Token) : NodeReader Bool := do
  return (← peek).any tokens.contains

/-! ## Anchors and tags -/

/-- The name of an anchor, if one comes next. -/
def anchor? : NodeReader (Option String) := do
  match ← peek with
  | some (.anchor name) =>
    skip
    return some name
  | _ => return none

/-- The whole tag, if one comes next. -/
def tag? : NodeReader (Option String) := do
  match ← peek with
  | some (.tag tag) =>
    skip
    return some (← (tag.resolve? (← get).handles))
  | _ => return none

/-- An anchor and a tag in either order, each if there is one. -/
def properties : NodeReader (Option String × Option String) := do
  let before ← anchor?
  let tag ← tag?
  let anchor ← if before.isSome then pure before else anchor?
  return (anchor, tag)

/-- Gives a number to an anchor. -/
def numberAnchor (name : String) : NodeReader Nat := do
  let numbers := (← get).numbers
  modify fun s => { s with numbers := (name, numbers.length) :: numbers }
  return numbers.length

/-- Reads a node with an anchor, if there is one. It may hold aliases of itself. -/
def anchoring (anchor : Option String) (read : NodeReader Node) : NodeReader Node := do
  match anchor with
  | none => read
  | some name =>
    let number ← numberAnchor name
    let node ← read
    modify fun s => { s with anchored := (number, node) :: s.anchored }
    return node

/-! ## Nodes -/

/-- A node without content, which must have an anchor or a tag. -/
def emptyNode (anchor tag : Option String) : NodeReader Node :=
  if anchor.isSome || tag.isSome then return .scalar .plain tag "" else failure

/-- The empty node if one of some tokens comes next, else what a reader makes of it. -/
def emptyBefore (tokens : List Token) (read : NodeReader Node) : NodeReader Node := do
  if ← isNext tokens then return .empty else read

mutual

/-- A node. Only in block form may it be a collection in block form; below a key it may be a
sequence whose dashes are not indented. -/
def nodeFuel : Nat → Bool → Bool → NodeReader Node
  | 0, _, _ => failure
  | fuel + 1, inBlock, belowKey => do
    if let some (.alias name) ← peek then
      skip
      return .alias (← (← get).numbers.lookup name)
    let (anchor, tag) ← properties
    anchoring anchor do
      match ← peek with
      | some (.scalar style text) =>
        skip
        return .scalar style (tag.filter (· ≠ "!")) text
      | some .openSequence =>
        skip
        flowItemsFuel fuel []
      | some .openMapping =>
        skip
        flowEntriesFuel fuel []
      | some .beginSequence =>
        if inBlock then
          skip
          itemsFuel fuel []
        else emptyNode anchor tag
      | some .beginMapping =>
        if inBlock then
          skip
          entriesFuel fuel []
        else emptyNode anchor tag
      | some .dash => if belowKey then looseItemsFuel fuel [] else emptyNode anchor tag
      | _ => emptyNode anchor tag

/-- The items of a sequence in block form, up to its end. The items so far are given last first. -/
def itemsFuel : Nat → List Node → NodeReader Node
  | 0, _ => failure
  | fuel + 1, done => do
    if ← take .endBlock then
      return .sequence done.reverse
    else
      expect .dash
      let item ← emptyBefore [.dash, .endBlock] (nodeFuel fuel true false)
      itemsFuel fuel (item :: done)

/-- The items of a sequence below a key whose dashes are not indented, as long as there are dashes.
The items so far are given last first. -/
def looseItemsFuel : Nat → List Node → NodeReader Node
  | 0, _ => failure
  | fuel + 1, done => do
    if ← take .dash then
      let item ← emptyBefore [.dash, .key, .value, .endBlock] (nodeFuel fuel true false)
      looseItemsFuel fuel (item :: done)
    else
      return .sequence done.reverse

/-- The entries of a mapping in block form, up to its end. The entries so far are given last
first. -/
def entriesFuel : Nat → List (Node × Node) → NodeReader Node
  | 0, _ => failure
  | fuel + 1, done => do
    if ← take .endBlock then
      return .mapping done.reverse
    else
      expect .key
      let node := emptyBefore [.key, .value, .endBlock] (nodeFuel fuel true true)
      let key ← node
      let value ← if ← take .value then node else pure .empty
      entriesFuel fuel ((key, value) :: done)

/-- The items of a sequence in brackets, up to its end. The items so far are given last first. A key
among them makes a mapping of one entry. -/
def flowItemsFuel : Nat → List Node → NodeReader Node
  | 0, _ => failure
  | fuel + 1, done => do
    if ← take .closeSequence then
      return .sequence done.reverse
    if !done.isEmpty then
      expect .comma
    if ← take .closeSequence then
      return .sequence done.reverse
    if ← take .key then
      let key ←
        if ← isNext [.value, .comma, .closeSequence] then
          skip
          pure .empty
        else nodeFuel fuel false false
      let value ←
        if ← take .value then emptyBefore [.comma, .closeSequence] (nodeFuel fuel false false)
        else pure .empty
      flowItemsFuel fuel (.mapping [(key, value)] :: done)
    else
      flowItemsFuel fuel ((← nodeFuel fuel false false) :: done)

/-- The entries of a mapping in brackets, up to its end. The entries so far are given last first. A
node without a colon is a key of nothing. -/
def flowEntriesFuel : Nat → List (Node × Node) → NodeReader Node
  | 0, _ => failure
  | fuel + 1, done => do
    if ← take .closeMapping then
      return .mapping done.reverse
    if !done.isEmpty then
      expect .comma
    if ← take .closeMapping then
      return .mapping done.reverse
    if ← take .key then
      let key ← emptyBefore [.value, .comma, .closeMapping] (nodeFuel fuel false false)
      let value ←
        if ← take .value then emptyBefore [.comma, .closeMapping] (nodeFuel fuel false false)
        else pure .empty
      flowEntriesFuel fuel ((key, value) :: done)
    else
      flowEntriesFuel fuel ((← nodeFuel fuel false false, .empty) :: done)

end

/-- A node in block form. Every two steps of the readers take one token at least. -/
def node : NodeReader Node := do
  nodeFuel (2 * (← get).tokens.length + 2) true false

/-! ## Documents -/

/-- Whether a token belongs to the head of a document. -/
def isDirective : Token → Bool
  | .version .. => true
  | .declaration .. => true
  | _ => false

/-- The versions of the format that can be read. -/
def versions : List (Nat × Nat) :=
  [(1, 1), (1, 2)]

/-- The directives at the head of a document. The version is said once at most, and so is what each
handle stands for. -/
def directives (tokens : List Token) : Option (List (String × String)) :=
  let asked := tokens.filterMap fun
    | .version major minor => some (major, minor)
    | _ => none
  let declared := tokens.filterMap fun
    | .declaration handle start => some (handle, start)
    | _ => none
  if asked.length ≤ 1 && asked.all versions.contains && (declared.map (·.1)).Nodup then
    some declared
  else none

/-- The root of a document, which is empty if the document starts and ends at once. Directives need
a mark behind them. -/
def root : NodeReader Node := do
  let tokens := (← get).tokens
  let head := tokens.takeWhile isDirective
  let body := tokens.drop head.length
  if body.isEmpty && head.isEmpty then
    return .empty
  if body.head? == some .documentStart then
    let handles ← directives head
    set (ReaderState.mk (body.drop 1) handles [] [])
    match ← peek with
    | none => return .empty
    | some .documentStart => return .empty
    | some .documentEnd => return .empty
    | some token => if isDirective token then return .empty else node
  else if head.isEmpty then node
  else failure

end NodeReader

/-- The document of some tokens. Only marks that end documents may come after it. -/
def Document.ofTokens? (tokens : List Token) : Option Document := do
  let (root, s) ← NodeReader.root.run ⟨tokens, [], [], []⟩
  if s.tokens.all (· == .documentEnd) then some ⟨root, s.anchored⟩ else none

/-- The document of a text that holds one at most. -/
def Document.ofText? (text : String) : Option Document :=
  (Token.scan? text).bind ofTokens?

end ToneGraph.Yaml
