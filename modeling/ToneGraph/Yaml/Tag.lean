import ToneGraph.Yaml.Number
import ToneGraph.Yaml.Cursor
/-!
# Tags

A tag says what a node is. It is written in full, or as a handle and the rest of the tag; what a
handle stands for is said at the head of the document. Tags are read byte by byte: each byte is one
character here, whether it is written as itself or as a percent sign and two digits.

## Main definitions

* `handle?`, `uri?`: the two parts of a tag.
* `tag?`: a tag of either form.
-/

namespace ToneGraph.Yaml

/-! ## The parts of a tag -/

/-- Whether a character may stand in a tag. In a tag that is written in full there are more. -/
def isUriChar (full : Bool) (c : Char) : Bool :=
  isNameChar c || ";/?:@&=+$.%!~*'()".contains c || (full && [',', '[', ']'].contains c)

/-- A byte that is written as a percent sign and two hexadecimal digits, and the rest. -/
def octet? : List Char → Option (Nat × List Char)
  | '%' :: a :: b :: rest => (digits? 16 [a, b]).map (·, rest)
  | _ => none

/-- How many bytes follow a byte that starts a character. -/
def following? (octet : Nat) : Option Nat :=
  if octet < 0x80 then some 0
  else if octet < 0xc0 then none
  else if octet < 0xe0 then some 1
  else if octet < 0xf0 then some 2
  else if octet < 0xf8 then some 3
  else none

/-- A number of bytes that go on with a character, and the rest. -/
def followers? : Nat → List Char → Option (List Char × List Char)
  | 0, text => some ([], text)
  | count + 1, text => do
    let (octet, rest) ← octet? text
    if octet < 0x80 || 0xc0 ≤ octet then none
    let (octets, rest) ← followers? count rest
    return (Char.ofNat octet :: octets, rest)

/-- The characters of a tag from here on, and the rest. The fuel bounds their number. -/
def uriFuel (full : Bool) : Nat → List Char → Option (List Char × List Char)
  | 0, _ => none
  | fuel + 1, text =>
    match text with
    | [] => some ([], [])
    | c :: rest =>
      if c = '%' then do
        let (octet, rest) ← octet? text
        let (octets, rest) ← followers? (← following? octet) rest
        let (more, rest) ← uriFuel full fuel rest
        return (Char.ofNat octet :: octets ++ more, rest)
      else if isUriChar full c then
        (uriFuel full fuel rest).map fun (more, rest) => (c :: more, rest)
      else some ([], text)

/-- The characters of a tag from here on, and the rest. There is no gap among them. -/
def uri? (full : Bool) (text : List Char) : Option (String × List Char) :=
  let run := text.takeWhile fun c => !(isBlank c || isBreak c)
  (uriFuel full (run.length + 1) text).map fun (uri, rest) => (String.ofList uri, rest)

/-- A handle, and the rest: an exclamation mark, or a name between two of them. What starts like a
name but does not end so is no handle, but may start a tag. -/
def handle? : List Char → Option (String × List Char)
  | '!' :: text =>
    let name := text.takeWhile isNameChar
    match text.dropWhile isNameChar with
    | '!' :: rest => some (String.ofList ('!' :: name ++ ['!']), rest)
    | rest => some (String.ofList ('!' :: name), rest)
  | _ => none

/-- Whether a text is the name of a handle between two marks. -/
def isNamedHandle (handle : String) : Bool :=
  1 < handle.length && handle.endsWith "!"

/-! ## Tags -/

/-- A tag as it is written. A tag in full has no handle, and neither has the mark alone. -/
structure Tag where
  handle : String
  suffix : String
  deriving DecidableEq

namespace Tag

/-- The tag of whole numbers. -/
def int : String := "tag:yaml.org,2002:int"

/-- The tag of floats. -/
def float : String := "tag:yaml.org,2002:float"

/-- The tag of nothing. -/
def null : String := "tag:yaml.org,2002:null"

/-- What the handles stand for that need not be declared. -/
def coreHandles : List (String × String) :=
  [("!", "!"), ("!!", "tag:yaml.org,2002:")]

/-- The whole tag, if its handle is among those declared or needs no declaration. -/
def resolve? (declared : List (String × String)) (tag : Tag) : Option String :=
  if tag.handle.isEmpty then some tag.suffix
  else ((declared ++ coreHandles).lookup tag.handle).map (· ++ tag.suffix)

end Tag

/-- The tag that starts here, and the rest. -/
def tag? : List Char → Option (Tag × List Char)
  | '!' :: '<' :: text => do
    let (uri, rest) ← uri? true text
    if uri.isEmpty then none
    match rest with
    | '>' :: rest => some (⟨"", uri⟩, rest)
    | _ => none
  | text => do
    let (handle, rest) ← handle? text
    let (uri, rest) ← uri? false rest
    if isNamedHandle handle then
      if uri.isEmpty then none else some (⟨handle, uri⟩, rest)
    else
      let suffix := String.ofList (handle.toList.drop 1) ++ uri
      some (if suffix.isEmpty then ⟨"", "!"⟩ else ⟨"!", suffix⟩, rest)

end ToneGraph.Yaml
