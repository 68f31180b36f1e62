import ToneGraph.Yaml.BlockScalar
import ToneGraph.Yaml.Plain
import ToneGraph.Yaml.Quoted
import ToneGraph.Yaml.Token
/-!
# Scanning a Yaml text into tokens

That a scalar or a collection is a key is known only at the colon behind it. So whatever can be a
key leaves a slot in front of its tokens, and the colon fills it. A key must be written on one line
and must not be long, so a slot is soon given up, and it is an error if the line had to be a key.

## Main definitions

* `KeySlot`: where a key may have begun.
* `TokenReader`: what has been read, and what the text further on depends on.
* `TokenReader.step?`: the next token.
* `Token.scan?`: all tokens of a text.
-/

namespace ToneGraph.Yaml

/-- A place where a key may have begun. -/
structure KeySlot where
  /-- The index of the slot among the tokens. -/
  index : Nat
  place : Cursor
  /-- Whether a key must begin there, since the column is that of the other keys. -/
  required : Bool

/-- The most bytes from the start of a key to its colon. -/
def KeySlot.maxLength : Nat := 1024

/-- Whether a colon at a place is too late for a key. -/
def KeySlot.isTooFar (slot : KeySlot) (p : Cursor) : Bool :=
  slot.place.line < p.line || slot.place.offset + maxLength < p.offset

/-- A reader of tokens. -/
structure TokenReader where
  place : Cursor
  /-- The tokens so far. A slot for a key is an empty list until it is filled. -/
  tokens : Array (List Token)
  /-- The columns of the collections in block form around this place, innermost first. -/
  columns : List Nat
  /-- The slot of the innermost bracket, if there is one. -/
  slot : Option KeySlot
  /-- The slots of what is around the innermost bracket. -/
  outerSlots : List (Option KeySlot)
  /-- Whether a key may begin here. -/
  keyAllowed : Bool

namespace TokenReader

/-- The state at the start of a text. -/
def start (text : List Char) : TokenReader :=
  ⟨.start text, #[], [], none, [], true⟩

/-- Whether there is a bracket around this place. -/
def inFlow (s : TokenReader) : Bool :=
  !s.outerSlots.isEmpty

/-- The first column that lies within the innermost collection in block form. -/
def least (s : TokenReader) : Nat :=
  match s.columns with
  | [] => 0
  | column :: _ => column + 1

/-- Appends a token and goes on at a place. -/
def push (s : TokenReader) (token : Token) (place : Cursor) : TokenReader :=
  { s with tokens := s.tokens.push [token], place }

/-- Says whether a key may begin here. -/
def allowKey (s : TokenReader) (keyAllowed : Bool) : TokenReader :=
  { s with keyAllowed }

/-! ## Collections in block form -/

/-- Begins a collection in block form at this column, unless one has begun there. In brackets there
is none. -/
def beginBlock (s : TokenReader) (token : Token) : TokenReader :=
  if s.inFlow || s.place.column < s.least then s
  else { s with tokens := s.tokens.push [token], columns := s.place.column :: s.columns }

/-- Ends the collections in block form whose columns are not left of a given one. -/
def endBlocks (s : TokenReader) (column : Nat) : TokenReader :=
  if s.inFlow then s
  else
    let ended := s.columns.takeWhile (column ≤ ·)
    { s with
      tokens := s.tokens.push (ended.map fun _ => .endBlock)
      columns := s.columns.drop ended.length }

/-! ## Slots for keys -/

/-- Gives up the slot. It is refused if a key had to begin there. -/
def dropSlot? (s : TokenReader) : Option TokenReader :=
  if s.slot.any (·.required) then none else some { s with slot := none }

/-- Gives up the slot if it is too late for a key. -/
def checkSlot? (s : TokenReader) : Option TokenReader :=
  if s.slot.any (·.isTooFar s.place) then s.dropSlot? else some s

/-- Makes a slot here, if a key may begin here, in place of the one before. -/
def makeSlot? (s : TokenReader) : Option TokenReader :=
  if !s.keyAllowed then some s
  else do
    let s ← s.dropSlot?
    let required := !s.inFlow && s.columns.head? == some s.place.column
    let slot : KeySlot := ⟨s.tokens.size, s.place, required⟩
    return { s with tokens := s.tokens.push [], slot := some slot }

/-- Fills a slot. A mapping in block form begins with its first key. -/
def fillSlot (s : TokenReader) (slot : KeySlot) : TokenReader :=
  let column := slot.place.column
  if s.inFlow || column < s.least then
    { s with tokens := s.tokens.modify slot.index fun _ => [.key], slot := none }
  else
    { s with
      tokens := s.tokens.modify slot.index fun _ => [.beginMapping, .key]
      columns := column :: s.columns
      slot := none }

/-! ## Between tokens -/

/-- The place behind a mark of byte order, which may stand at the start of a line. -/
def afterOrderMark (s : TokenReader) : Cursor :=
  if s.place.column = 0 && s.place.isAt '\ufeff' then s.place.next else s.place

/-- The place behind the blanks and the comment that may follow here. A tab counts as a blank where
no key may begin. -/
def afterBlanks (s : TokenReader) : Cursor :=
  let tabs := s.inFlow || !s.keyAllowed
  (s.afterOrderMark.skipWhile fun c => c = ' ' || (tabs && c = '\t')).skipComment

theorem length_afterOrderMark_le (s : TokenReader) :
    s.afterOrderMark.rest.length ≤ s.place.rest.length := by
  unfold afterOrderMark
  split
  · rw [Cursor.rest_next, List.length_tail]
    exact Nat.sub_le ..
  · exact Nat.le_refl _

theorem length_afterBlanks_le (s : TokenReader) :
    s.afterBlanks.rest.length ≤ s.place.rest.length :=
  Nat.le_trans (Cursor.length_skipComment_le _)
    (Nat.le_trans (Cursor.length_skipWhile_le _ _) s.length_afterOrderMark_le)

/-- Skips blanks, comments and line breaks. After a line break a key may begin, except in
brackets. -/
def skipGap (s : TokenReader) : TokenReader :=
  match _hp : s.afterBlanks.rest with
  | [] => { s with place := s.afterBlanks }
  | c :: _ =>
    if isBreak c then
      skipGap { s with place := s.afterBlanks.next, keyAllowed := s.keyAllowed || !s.inFlow }
    else { s with place := s.afterBlanks }
termination_by s.place.rest.length
decreasing_by
  have := s.length_afterBlanks_le
  simp only [_hp, Cursor.rest_next, List.tail_cons, List.length_cons] at this ⊢
  omega

/-! ## The tokens -/

/-- A number of a version and the rest. It has nine digits at most. -/
def versionNumber? (text : List Char) : Option (Nat × List Char) :=
  let digits := text.takeWhile Char.isDigit
  if 9 < digits.length then none
  else (digits? 10 digits).map (·, text.dropWhile Char.isDigit)

/-- The token of a line that starts with a percent sign, from behind the sign, and the rest. -/
def directive? (text : List Char) : Option (Token × List Char) := do
  let rest := text.dropWhile isNameChar
  if !atGap rest then none
  let rest := rest.dropWhile isBlank
  match String.ofList (text.takeWhile isNameChar) with
  | "YAML" =>
    let (major, rest) ← versionNumber? rest
    match rest with
    | '.' :: rest =>
      let (minor, rest) ← versionNumber? rest
      return (.version major minor, rest)
    | _ => none
  | "TAG" =>
    let (handle, rest) ← handle? rest
    if !(handle = "!" || isNamedHandle handle) then none
    if !rest.head?.any isBlank then none
    let (start, rest) ← uri? true (rest.dropWhile isBlank)
    if start.isEmpty || !atGap rest then none
    return (.declaration handle start, rest)
  | _ => none

/-- Appends the token of a directive. -/
def pushDirective? (s : TokenReader) : Option TokenReader := do
  let s ← (s.endBlocks 0).dropSlot?
  let (token, rest) ← directive? (s.place.rest.drop 1)
  return (s.push token (← (s.place.skipTo rest).endOfLine?)).allowKey false

/-- Appends the mark of a document. -/
def pushMark? (s : TokenReader) (token : Token) : Option TokenReader := do
  let s ← (s.endBlocks 0).dropSlot?
  return (s.push token (s.place.skip 3)).allowKey false

/-- Appends a bracket that opens. It may itself be the start of a key. -/
def pushOpening? (s : TokenReader) (token : Token) : Option TokenReader := do
  let s ← s.makeSlot?
  let s := { s with slot := none, outerSlots := s.slot :: s.outerSlots }
  return (s.push token s.place.next).allowKey true

/-- Appends a bracket that closes. -/
def pushClosing? (s : TokenReader) (token : Token) : Option TokenReader := do
  let s ← s.dropSlot?
  let s :=
    match s.outerSlots with
    | [] => s
    | slot :: outerSlots => { s with slot, outerSlots }
  return (s.push token s.place.next).allowKey false

/-- Appends a comma. -/
def pushComma? (s : TokenReader) : Option TokenReader := do
  let s ← s.dropSlot?
  return (s.push .comma s.place.next).allowKey true

/-- Appends a dash, with which a sequence in block form may begin. -/
def pushDash? (s : TokenReader) : Option TokenReader := do
  if !s.inFlow && !s.keyAllowed then none
  let s ← (s.beginBlock .beginSequence).dropSlot?
  return (s.push .dash s.place.next).allowKey true

/-- Appends a question mark, with which a mapping in block form may begin. -/
def pushKey? (s : TokenReader) : Option TokenReader := do
  if !s.inFlow && !s.keyAllowed then none
  let s ← (s.beginBlock .beginMapping).dropSlot?
  return (s.push .key s.place.next).allowKey (!s.inFlow)

/-- Appends a colon. It makes a key of what left the slot, and otherwise belongs to a key with a
question mark. -/
def pushValue? (s : TokenReader) : Option TokenReader :=
  match s.slot with
  | some slot => some (((s.fillSlot slot).push .value s.place.next).allowKey false)
  | none =>
    if !s.inFlow && !s.keyAllowed then none
    else some (((s.beginBlock .beginMapping).push .value s.place.next).allowKey (!s.inFlow))

/-- Appends a name behind a mark: an anchor or an alias. -/
def pushName? (s : TokenReader) (token : String → Token) : Option TokenReader := do
  let s ← s.makeSlot?
  let text := s.place.rest.drop 1
  let name := text.takeWhile isNameChar
  let rest := text.dropWhile isNameChar
  let ends := atGap rest || rest.head?.any fun c => "?:,]\x7d%@\x60".contains c
  if name.isEmpty || !ends then none
  return (s.push (token (String.ofList name)) (s.place.skip (name.length + 1))).allowKey false

/-- Appends a tag. -/
def pushTag? (s : TokenReader) : Option TokenReader := do
  let s ← s.makeSlot?
  let (tag, rest) ← tag? s.place.rest
  if !(atGap rest || (s.inFlow && rest.head? == some ',')) then none
  return (s.push (.tag tag) (s.place.skipTo rest)).allowKey false

/-- Appends a block scalar, which is never a key. -/
def pushBlockScalar? (s : TokenReader) (style : Style) : Option TokenReader := do
  let s ← s.dropSlot?
  let (text, after) ← blockScalar? (style == .folded) s.least s.place
  return (s.push (.scalar style (String.ofList text)) after).allowKey true

/-- Appends a scalar in quotes. -/
def pushQuoted? (s : TokenReader) (quote : Char) (style : Style) : Option TokenReader := do
  let s ← s.makeSlot?
  let (text, after) ← quoted? quote s.place
  return (s.push (.scalar style (String.ofList text)) after).allowKey false

/-- Appends a plain scalar. Behind one that ends with its line a key may begin. -/
def pushPlain? (s : TokenReader) : Option TokenReader := do
  let s ← s.makeSlot?
  let scalar ← plain? s.inFlow s.least s.place
  return (s.push (.scalar .plain (String.ofList scalar.text)) scalar.after).allowKey scalar.endsLine

/-- Appends the token that starts here. -/
def step? (s : TokenReader) : Option TokenReader :=
  let p := s.place
  if p.column = 0 && p.isAt '%' then s.pushDirective?
  else if p.atMark '-' then s.pushMark? .documentStart
  else if p.atMark '.' then s.pushMark? .documentEnd
  else
    match p.rest with
    | '[' :: _ => s.pushOpening? .openSequence
    | '\x7b' :: _ => s.pushOpening? .openMapping
    | ']' :: _ => s.pushClosing? .closeSequence
    | '\x7d' :: _ => s.pushClosing? .closeMapping
    | ',' :: _ => s.pushComma?
    | '*' :: _ => s.pushName? .alias
    | '&' :: _ => s.pushName? .anchor
    | '!' :: _ => s.pushTag?
    | '\'' :: _ => s.pushQuoted? '\'' .singleQuoted
    | '"' :: _ => s.pushQuoted? '"' .doubleQuoted
    | c :: rest =>
      if c = '-' && atGap rest then s.pushDash?
      else if c = '?' && (s.inFlow || atGap rest) then s.pushKey?
      else if c = ':' && (s.inFlow || atGap rest) then s.pushValue?
      else if c = '|' && !s.inFlow then s.pushBlockScalar? .literal
      else if c = '>' && !s.inFlow then s.pushBlockScalar? .folded
      else if startsPlain s.inFlow p.rest then s.pushPlain?
      else none
    | [] => none

/-- All tokens, the end of the text ending all collections in block form. The fuel bounds the number
of tokens that are still to come. -/
def tokensFuel : Nat → TokenReader → Option (List Token)
  | 0, _ => none
  | fuel + 1, s => do
    let s ← s.skipGap.checkSlot?
    let s := s.endBlocks (s.place.column + 1)
    if s.place.rest.isEmpty then
      let s ← (s.endBlocks 0).dropSlot?
      return s.tokens.toList.flatten
    else tokensFuel fuel (← s.step?)

end TokenReader

/-- Whether a character may stand in a text. -/
def isAllowed (c : Char) : Bool :=
  let n := c.toNat
  n = 0x9 || n = 0xa || n = 0xd || (0x20 ≤ n && n ≤ 0x7e) || n = 0x85 ||
    (0xa0 ≤ n && n ≤ 0xd7ff) || (0xe000 ≤ n && n ≤ 0xfffd) || 0x10000 ≤ n

/-- All tokens of a text. Each takes one character at least. -/
def Token.scan? (text : String) : Option (List Token) :=
  let chars := text.toList
  if chars.all isAllowed then
    (TokenReader.start (plainBreaks chars)).tokensFuel (chars.length + 1)
  else none

end ToneGraph.Yaml
