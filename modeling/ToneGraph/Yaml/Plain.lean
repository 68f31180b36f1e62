import ToneGraph.Yaml.Cursor
/-!
# Plain scalars

Scalars without quotes are told by where they end: before a colon with a gap behind it, before a
comment, at a line that is not indented enough and, within brackets, before a mark.

## Main definitions

* `startsPlain`: whether one can start here.
* `word?`: what one takes up to the next blank.
* `plain?`: a whole plain scalar.
-/

namespace ToneGraph.Yaml

/-- The marks of collections in brackets. -/
def isFlowMark (c : Char) : Bool :=
  [',', '[', ']', '\x7b', '\x7d'].contains c

/-- Whether a plain scalar can start here. A dash, a question mark and a colon have a meaning of
their own before a gap, the latter two anywhere in brackets. -/
def startsPlain (inFlow : Bool) : List Char → Bool
  | [] => false
  | c :: rest =>
    if c = '-' then !atGap rest
    else if c = '?' || c = ':' then !inFlow && !atGap rest
    else !(isBlank c || isBreak c || isFlowMark c ||
      ['#', '&', '*', '!', '|', '>', '\'', '"', '%', '@', '\x60'].contains c)

/-- What a plain scalar takes up to the next blank. Within brackets a colon must not stand before a
mark. -/
def word? (inFlow : Bool) : List Char → Option (List Char)
  | [] => some []
  | c :: rest =>
    if isBlank c || isBreak c || (c = ':' && atGap rest) || (inFlow && isFlowMark c) then some []
    else if inFlow && c = ':' && rest.head?.any (fun d => d = '?' || isFlowMark d) then none
    else (word? inFlow rest).map (c :: ·)

/-- A plain scalar that has been read. -/
structure Plain where
  text : List Char
  /-- The place behind it and the spacing that follows it. -/
  after : Cursor
  /-- Whether a line ends in the spacing that follows it. -/
  endsLine : Bool

/-- The length of a word is no longer than what it is taken from. -/
theorem length_word_le {inFlow : Bool} {text word : List Char} (h : word? inFlow text = some word) :
    word.length ≤ text.length := by
  induction text generalizing word with
  | nil => simp_all [word?]
  | cons c rest ih =>
    unfold word? at h
    split at h
    · simp_all
    · split at h
      · simp at h
      · obtain ⟨more, hmore, rfl⟩ := Option.map_eq_some_iff.1 h
        simpa using ih hmore

/-- A plain scalar from behind some spacing on. The text before that is given last character
first. -/
def plainFrom? (inFlow : Bool) (least : Nat) (done : List Char) (s : Spacing) : Option Plain :=
  if s.after.atDocumentMark || s.after.isAt '#' ||
      (!inFlow && s.after.column < least && s.crosses) then
    some ⟨done.reverse, s.after, s.crosses⟩
  else
    match _hw : word? inFlow s.after.rest with
    | none => none
    | some [] => some ⟨done.reverse, s.after, s.crosses⟩
    | some (c :: word) =>
      let p := s.after.skip (word.length + 1)
      if p.indentsByTab least then none
      else plainFrom? inFlow least ((c :: word).reverse ++ s.text.reverse ++ done) p.spacing
termination_by s.after.rest.length
decreasing_by
  have hlen := length_word_le _hw
  have := (s.after.skip (word.length + 1)).length_after_spacing_le
  simp only [Cursor.length_skip, List.length_cons] at this hlen ⊢
  omega

/-- The plain scalar that starts here. Outside brackets its further lines must be indented by
`least`; a tab does not indent. -/
def plain? (inFlow : Bool) (least : Nat) (p : Cursor) : Option Plain :=
  plainFrom? inFlow least [] (.empty p)

end ToneGraph.Yaml
