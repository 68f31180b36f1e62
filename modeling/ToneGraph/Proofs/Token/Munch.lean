import ToneGraph.Proofs.Text.Position
import ToneGraph.Proofs.Token.NumberForm
import ToneGraph.Proofs.Token.Relayout
/-!
# Where numbers start and how far they go

Every character of a source belongs to a gap or to a word.  A number starts at each digit, and at
each point with a digit behind it, unless that character belongs to a comment or to a word that
started before it.  From there on the number takes as many characters as can be a number; a point
or a letter that it cannot take is the first character of the next word.

## Main definitions

* `InComment`: the places of a gap that are not blanks between comments.
* `Locus`, `locate`: the gap or word that a place of a source belongs to.
* `BeginsNumber`: a digit, or a point and a digit.

## Main statements

* `exists_of_locate_word`, `inComment_of_locate_gap`: what is known of a place in a word or a gap.
* `locate_of_mem_tokensFrom`: a number stands where its token says.
* `Token.scan_numbers`: where the numbers of a source are and what they are.
-/

namespace ToneGraph

open Text Number

/-- Of two beginnings of a text the shorter one is a beginning of the longer one. -/
theorem exists_eq_append_of_length_le {a b c d : List Char} (h : a ++ b = c ++ d)
    (hle : a.length ≤ c.length) : ∃ mid, c = a ++ mid ∧ b = mid ++ d := by
  obtain ⟨mid, hc, hb⟩ | ⟨mid, ha, hd⟩ := List.append_eq_append_iff.1 h
  · exact ⟨mid, hc, hb⟩
  · have hnil : mid = [] := by
      have hlen := congrArg List.length ha
      rw [List.length_append] at hlen
      exact List.eq_nil_of_length_eq_zero (by omega)
    subst hnil
    exact ⟨[], by rw [ha, List.append_nil, List.append_nil], hd.symm⟩

/-- Of two beginnings of a text the one with fewer bytes is a beginning of the other one. -/
theorem exists_eq_append_of_byteLength_le {a b c d : List Char} (h : a ++ b = c ++ d)
    (hle : byteLength a ≤ byteLength c) : ∃ mid, c = a ++ mid ∧ b = mid ++ d := by
  refine exists_eq_append_of_length_le h (Nat.le_of_not_lt fun hlt => ?_)
  obtain ⟨mid, rfl, -⟩ := exists_eq_append_of_length_le h.symm hlt.le
  cases mid with
  | nil => simp at hlt
  | cons e mid => exact absurd (byteLength_lt_append c e mid) (Nat.not_lt.2 hle)

theorem eq_of_byteLength_eq {a b c d : List Char} (h : a ++ b = c ++ d)
    (heq : byteLength a = byteLength c) : a = c := by
  obtain ⟨mid, rfl, -⟩ := exists_eq_append_of_byteLength_le h heq.le
  cases mid with
  | nil => rw [List.append_nil]
  | cons e mid => exact absurd heq (byteLength_lt_append a e mid).ne

/-! ## Comments -/

/-- A line comment without its newline, or a block comment, which may be open at the end. -/
inductive IsComment : List Char → Prop
  | line {body} : '\n' ∉ body → IsComment ('/' :: '/' :: body)
  | block {body} : NoClosing body → IsComment ('/' :: '*' :: (body ++ ['*', '/']))
  | unclosed {body} : NoClosing body → IsComment ('/' :: '*' :: body)

/-- The character of a gap with `i` characters before it belongs to a comment. -/
def InComment (gap : List Char) (i : Nat) : Prop :=
  ∃ skipped comment more, gap = skipped ++ (comment ++ more) ∧ Trivia skipped ∧
    IsComment comment ∧ skipped.length ≤ i ∧ i < skipped.length + comment.length

theorem InComment.prepend (front : List Char) {gap : List Char} {i : Nat}
    (hfront : ∀ skipped, Trivia skipped → Trivia (front ++ skipped)) (h : InComment gap i) :
    InComment (front ++ gap) (front.length + i) := by
  obtain ⟨skipped, comment, more, rfl, hskipped, hcomment, hlow, hhigh⟩ := h
  refine ⟨front ++ skipped, comment, more, (List.append_assoc _ _ _).symm, hfront _ hskipped,
    hcomment, ?_, ?_⟩ <;>
    · rw [List.length_append]
      omega

theorem InComment.append {gap : List Char} {i : Nat} (h : InComment gap i) (more : List Char) :
    InComment (gap ++ more) i := by
  obtain ⟨skipped, comment, behind, rfl, hskipped, hcomment, hplace⟩ := h
  exact ⟨skipped, comment, behind ++ more, by simp only [List.append_assoc], hskipped, hcomment,
    hplace⟩

/-- A place in a gap that begins with a comment is in that comment or behind it. -/
theorem inComment_or_behind {comment rest before after : List Char} (hcomment : IsComment comment)
    (htext : comment ++ rest = before ++ after) :
    InComment (comment ++ rest) before.length ∨
      ∃ behind, before = comment ++ behind ∧ rest = behind ++ after := by
  by_cases hlt : before.length < comment.length
  · exact .inl ⟨[], comment, rest, rfl, .nil, hcomment, Nat.zero_le _, by simpa using hlt⟩
  · exact .inr (exists_eq_append_of_length_le htext (Nat.le_of_not_lt hlt))

/-- What is not blank in a gap belongs to a comment. -/
theorem Trivia.inComment {gap before after : List Char} {c : Char} (h : Trivia gap)
    (hgap : gap = before ++ c :: after) (hc : isBlank c = false) :
    InComment gap before.length := by
  induction h generalizing before with
  | nil => simp at hgap
  | @blank d rest hd _ ih =>
      cases before with
      | nil =>
          obtain ⟨rfl, -⟩ := List.cons.inj hgap
          rw [hd] at hc
          contradiction
      | cons b before =>
          obtain ⟨rfl, hrest⟩ := List.cons.inj hgap
          have hin := (ih hrest).prepend [d] fun _ => .blank hd
          rwa [List.length_singleton, Nat.add_comm] at hin
  | @line body rest hbody _ ih =>
      obtain hin | ⟨behind, rfl, hrest⟩ := inComment_or_behind (.line hbody) hgap
      · exact hin
      · cases behind with
        | nil =>
            obtain ⟨rfl, -⟩ := List.cons.inj hrest
            contradiction
        | cons d behind =>
            obtain ⟨rfl, hbehind⟩ := List.cons.inj hrest
            have hin := (ih hbehind).prepend ('/' :: '/' :: (body ++ ['\n'])) fun gap hgap => by
              rw [List.cons_append, List.cons_append, List.append_assoc]
              exact .line hbody hgap
            have hlen : ('/' :: '/' :: (body ++ ['\n'])).length + behind.length =
                ('/' :: '/' :: body ++ '\n' :: behind).length := by
              simp only [List.length_cons, List.length_append, List.length_nil]
              omega
            rwa [hlen, List.cons_append, List.cons_append, List.append_assoc] at hin
  | @block body rest hbody _ ih =>
      have hsplit : '/' :: '*' :: (body ++ '*' :: '/' :: rest) =
          '/' :: '*' :: (body ++ ['*', '/']) ++ rest := by simp
      rw [hsplit] at hgap ⊢
      obtain hin | ⟨behind, rfl, hrest⟩ := inComment_or_behind (.block hbody) hgap
      · exact hin
      · rw [List.length_append]
        refine (ih hrest).prepend _ fun gap hgap => ?_
        rw [List.cons_append, List.cons_append, List.append_assoc]
        exact .block hbody hgap

/-- Blanks and comments, of which the last one may be open at the end. -/
inductive IsGap : List Char → Prop
  | closed {gap} : Trivia gap → IsGap gap
  | opened {gap comment} : Trivia gap → IsComment comment → IsGap (gap ++ comment)

theorem IsGap.inComment {gap before after : List Char} {c : Char} (h : IsGap gap)
    (hgap : gap = before ++ c :: after) (hc : isBlank c = false) :
    InComment gap before.length := by
  cases h with
  | closed htrivia => exact htrivia.inComment hgap hc
  | @opened front comment hfront hcomment =>
      by_cases hlt : before.length < front.length
      · obtain ⟨mid, rfl, hmid⟩ := exists_eq_append_of_length_le hgap.symm hlt.le
        cases mid with
        | nil => simp at hlt
        | cons d mid =>
            obtain ⟨rfl, -⟩ := List.cons.inj hmid
            exact (hfront.inComment rfl hc).append comment
      · have hlen := congrArg List.length hgap
        simp only [List.length_append, List.length_cons] at hlen
        exact ⟨front, comment, [], by rw [List.append_nil], hfront, hcomment,
          Nat.le_of_not_lt hlt, by omega⟩

/-- All gaps of a source are such gaps. -/
theorem Laid.isGap {offset : Nat} {pieces : List Piece} {last : List Char}
    (h : Laid offset pieces last) : IsGap last ∧ ∀ p ∈ pieces, IsGap p.gap := by
  induction h with
  | finish hgap => exact ⟨.closed hgap, nofun⟩
  | line hgap hbody => exact ⟨.opened hgap (.line hbody), nofun⟩
  | word hgap _ _ ih => exact ⟨ih.1, List.forall_mem_cons.2 ⟨.closed hgap, ih.2⟩⟩
  | openString hgap => exact ⟨.closed .nil, List.forall_mem_singleton.2 (.closed hgap)⟩
  | openComment hgap hbody =>
      exact ⟨.closed .nil, List.forall_mem_singleton.2 (.opened hgap (.unclosed hbody))⟩

/-! ## Places of a source -/

/-- The gap or the word that a place belongs to, and how many of its characters stand before the
place. -/
inductive Locus where
  | gap (gap : List Char) (i : Nat)
  | word (p : Piece) (i : Nat)

/-- Finds the place with `i` characters before it. -/
def locate (last : List Char) : List Piece → Nat → Locus
  | [], i => .gap last i
  | p :: pieces, i =>
    if i < p.gap.length then .gap p.gap i
    else if i < p.gap.length + p.spelling.length then .word p (i - p.gap.length)
    else locate last pieces (i - (p.gap.length + p.spelling.length))

/-- The place is in a comment or behind the first character of a word. -/
def Locus.Inside : Locus → Prop
  | .gap text i => InComment text i
  | .word _ i => 0 < i

/-- Places behind a word are places of what follows it. -/
theorem locate_behind (p : Piece) (pieces : List Piece) (last behind : List Char) :
    locate last (p :: pieces) (p.gap ++ p.spelling ++ behind).length =
      locate last pieces behind.length := by
  have hlen : (p.gap ++ p.spelling ++ behind).length =
      p.gap.length + p.spelling.length + behind.length := by simp only [List.length_append]
  rw [locate, if_neg (by omega), if_neg (by omega), hlen, Nat.add_sub_cancel_left]

theorem layout_eq_append (pieces : List Piece) (last : List Char) :
    layout pieces last = layout pieces [] ++ last := by
  simp only [layout, List.append_nil]

theorem tokensFrom_append (front back : List Piece) (last : List Char) (offset : Nat) :
    ∃ tokens, tokensFrom last offset (front ++ back) =
      tokens ++ tokensFrom last (offset + byteLength (layout front [])) back := by
  induction front generalizing offset with
  | nil => exact ⟨[], rfl⟩
  | cons p front ih =>
      obtain ⟨tokens, htokens⟩ := ih (offset + byteLength (p.gap ++ p.spelling))
      refine ⟨p.tokenAt (offset + byteLength p.gap) :: tokens, ?_⟩
      rw [List.cons_append, tokensFrom, htokens, layout_cons, ← List.append_assoc,
        byteLength_append (p.gap ++ p.spelling), Nat.add_assoc, List.cons_append]

theorem Taken.of_append {last : List Char} {front back : List Piece}
    (h : Taken last (front ++ back)) : Taken last back := by
  induction front with
  | nil => exact h
  | cons p front ih => exact ih h.2

theorem Laid.tail {offset : Nat} {p : Piece} {pieces : List Piece} {last : List Char}
    (h : Laid offset (p :: pieces) last) : ∃ start, Laid start pieces last := by
  cases h with
  | word _ _ htail => exact ⟨_, htail⟩
  | openString => exact ⟨0, .finish .nil⟩
  | openComment => exact ⟨0, .finish .nil⟩

theorem Laid.of_append {offset : Nat} {front back : List Piece} {last : List Char}
    (h : Laid offset (front ++ back) last) : ∃ start, Laid start back last := by
  induction front generalizing offset with
  | nil => exact ⟨offset, h⟩
  | cons p front ih =>
      obtain ⟨start, htail⟩ := h.tail
      exact ih htail

/-- A place in a word splits the words and the characters of the source. -/
theorem exists_of_locate_word {pieces : List Piece} {last before rest : List Char} {p : Piece}
    {i : Nat} (htext : layout pieces last = before ++ rest)
    (hlocate : locate last pieces before.length = .word p i) :
    ∃ front back inside, pieces = front ++ p :: back ∧ before = layout front p.gap ++ inside ∧
      inside.length = i ∧ i < p.spelling.length ∧
      p.spelling ++ layout back last = inside ++ rest := by
  induction pieces generalizing before with
  | nil => cases hlocate
  | cons q pieces ih =>
      rw [layout_cons, ← List.append_assoc] at htext
      by_cases hword : before.length < (q.gap ++ q.spelling).length
      · rw [List.length_append] at hword
        rw [locate, if_pos hword] at hlocate
        split at hlocate
        · cases hlocate
        · next hgap =>
            cases hlocate
            rw [List.append_assoc] at htext
            obtain ⟨inside, rfl, hrest⟩ :=
              exists_eq_append_of_length_le htext (Nat.le_of_not_lt hgap)
            have hinside : (p.gap ++ inside).length - p.gap.length = inside.length := by
              rw [List.length_append, Nat.add_sub_cancel_left]
            refine ⟨[], pieces, inside, rfl, rfl, hinside.symm, ?_, hrest⟩
            omega
      · obtain ⟨behind, rfl, hrest⟩ :=
          exists_eq_append_of_length_le htext (Nat.le_of_not_lt hword)
        rw [locate_behind] at hlocate
        obtain ⟨front, back, inside, rfl, rfl, hinside⟩ := ih hrest hlocate
        refine ⟨q :: front, back, inside, rfl, ?_, hinside⟩
        simp only [layout_cons, List.append_assoc]

/-- Where a word starts, the rest of the source is what it was read from. -/
theorem takenAt_of_locate {pieces : List Piece} {last before rest : List Char} {p : Piece}
    (htaken : Taken last pieces) (htext : layout pieces last = before ++ rest)
    (hlocate : locate last pieces before.length = .word p 0) :
    ∃ front back, pieces = front ++ p :: back ∧ before = layout front p.gap ∧
      rest = p.spelling ++ layout back last ∧ p.TakenAt (layout back last) := by
  obtain ⟨front, back, inside, rfl, hbefore, hnil, hpos, hrest⟩ :=
    exists_of_locate_word htext hlocate
  obtain rfl := List.eq_nil_of_length_eq_zero hnil
  rw [List.append_nil] at hbefore
  exact ⟨front, back, rfl, hbefore, hrest.symm, htaken.of_append.1 (List.length_pos_iff.1 hpos)⟩

/-- What is not blank and belongs to a gap belongs to a comment. -/
theorem inComment_of_locate_gap {pieces : List Piece} {last before rest gap : List Char} {c : Char}
    {i : Nat} (hlast : IsGap last) (hgaps : ∀ p ∈ pieces, IsGap p.gap)
    (htext : layout pieces last = before ++ c :: rest) (hc : isBlank c = false)
    (hlocate : locate last pieces before.length = .gap gap i) : InComment gap i := by
  induction pieces generalizing before with
  | nil =>
      cases hlocate
      exact hlast.inComment htext hc
  | cons q pieces ih =>
      rw [layout_cons, ← List.append_assoc] at htext
      rw [List.forall_mem_cons] at hgaps
      by_cases hword : before.length < (q.gap ++ q.spelling).length
      · rw [List.length_append] at hword
        rw [locate, if_pos hword] at hlocate
        split at hlocate
        · next hgap =>
            cases hlocate
            rw [List.append_assoc] at htext
            obtain ⟨mid, hmid, hrest⟩ := exists_eq_append_of_length_le htext.symm hgap.le
            cases mid with
            | nil =>
                rw [hmid, List.append_nil] at hgap
                exact absurd hgap (lt_irrefl _)
            | cons d mid =>
                obtain ⟨rfl, -⟩ := List.cons.inj hrest
                exact hgaps.1.inComment hmid hc
        · cases hlocate
      · obtain ⟨behind, rfl, hrest⟩ :=
          exists_eq_append_of_length_le htext (Nat.le_of_not_lt hword)
        rw [locate_behind] at hlocate
        exact ih hgaps.2 hrest hlocate

/-! ## Numbers -/

/-- A text that begins with a digit, or with a point and a digit. -/
def BeginsNumber (text : List Char) : Prop :=
  ∃ c rest, text = c :: rest ∧ (c.isDigit ∨ c = '.' ∧ ∃ d ∈ rest.head?, d.isDigit)

theorem beginsNumber_cons {c : Char} {rest : List Char} :
    BeginsNumber (c :: rest) ↔ startsNumber c rest := by
  rw [startsNumber, Bool.or_eq_true, Bool.and_eq_true, beq_iff_eq, Option.any_eq_true]
  constructor
  · rintro ⟨d, more, hcons, hbegins⟩
    cases hcons
    exact hbegins
  · exact fun hbegins => ⟨c, rest, rfl, hbegins⟩

theorem isBlank_of_startsNumber {c : Char} {rest : List Char} (h : startsNumber c rest) :
    isBlank c = false := by
  rw [startsNumber, Bool.or_eq_true, Bool.and_eq_true, beq_iff_eq] at h
  obtain hdigit | ⟨rfl, -⟩ := h
  · exact isBlank_of_isDigit hdigit
  · rfl

theorem readLexeme_of_startsNumber {c : Char} {rest : List Char} (h : startsNumber c rest) :
    readLexeme c rest = ⟨.number (spanNumber (c :: rest)).1.value,
      (spanNumber (c :: rest)).1.chars, (spanNumber (c :: rest)).1.chars,
      (spanNumber (c :: rest)).2⟩ :=
  if_pos h

theorem singleKind_ne_number (c : Char) (x : Float) : singleKind c ≠ .number x := by
  unfold singleKind
  repeat' split
  all_goals nofun

/-- Only what starts like a number is read as one. -/
theorem startsNumber_of_kind {c : Char} {rest : List Char} {x : Float}
    (h : (readLexeme c rest).kind = .number x) : startsNumber c rest := by
  by_contra hstarts
  rw [readLexeme, if_neg hstarts] at h
  split at h
  · dsimp only at h
    split at h <;> cases h
  split at h
  · cases h
  · exact singleKind_ne_number c x h

/-- A word is a number if it begins like one. -/
theorem Piece.TakenAt.exists_number {p : Piece} {behind : List Char} (h : p.TakenAt behind)
    (hbegins : BeginsNumber (p.spelling ++ behind)) : ∃ x, p.kind = .number x := by
  obtain ⟨c, more, hspelling, hread⟩ := h
  rw [hspelling, List.cons_append, beginsNumber_cons] at hbegins
  rw [readLexeme_of_startsNumber hbegins, Lexeme.mk.injEq] at hread
  exact ⟨_, hread.1.symm⟩

/-- A word that is a number begins like one, is the longest one, and has a value. -/
theorem Piece.TakenAt.number_spec {p : Piece} {behind : List Char} {x : Float}
    (h : p.TakenAt behind) (hkind : p.kind = .number x) :
    BeginsNumber (p.spelling ++ behind) ∧ p.text = p.spelling ∧
      LongestNumber p.spelling (p.spelling ++ behind) ∧
      Number.float? (String.ofList p.spelling) = some x ∧ x.isNaN = false := by
  obtain ⟨c, more, hspelling, hread⟩ := h
  have hstarts : startsNumber c (more ++ behind) :=
    startsNumber_of_kind (by rw [hread]; exact hkind)
  rw [readLexeme_of_startsNumber hstarts, Lexeme.mk.injEq, hkind] at hread
  obtain ⟨hvalue, htext, hchars, -⟩ := hread
  have hlongest := longestNumber_spanNumber hstarts
  obtain ⟨hfloat, hnan⟩ := float?_spanNumber hstarts
  rw [TokenKind.number.inj hvalue] at hfloat hnan
  rw [hchars] at hlongest htext hfloat
  have happ : p.spelling ++ behind = c :: (more ++ behind) := by rw [hspelling, List.cons_append]
  rw [happ]
  exact ⟨beginsNumber_cons.2 hstarts, htext.symm, hlongest, hfloat, hnan⟩

theorem offset_le_of_mem_tokensFrom {pieces : List Piece} {last : List Char} {offset : Nat}
    {t : Token} (ht : t ∈ tokensFrom last offset pieces) : offset ≤ t.offset := by
  induction pieces generalizing offset with
  | nil =>
      obtain rfl := List.mem_singleton.1 ht
      exact Nat.le_add_right _ _
  | cons p pieces ih =>
      obtain rfl | htail := List.mem_cons.1 ht
      · exact Nat.le_add_right _ _
      · exact (Nat.le_add_right _ _).trans (ih htail)

theorem IsWord.spelling_ne_nil {kind : TokenKind} {text spelling : List Char}
    (h : IsWord kind text spelling) : spelling ≠ [] := by
  have hblank : AtBlank [] := nofun
  obtain ⟨c, more, rfl, -⟩ := h.readLexeme_append hblank
  nofun

/-- A number stands where its token says. -/
theorem locate_of_mem_tokensFrom {offset : Nat} {pieces : List Piece}
    {last before rest : List Char} {t : Token} {x : Float} (h : Laid offset pieces last)
    (htext : layout pieces last = before ++ rest) (ht : t ∈ tokensFrom last offset pieces)
    (hoffset : t.offset = offset + byteLength before) (hkind : t.kind = .number x) :
    ∃ p, locate last pieces before.length = .word p 0 ∧ t = p.tokenAt t.offset := by
  induction h generalizing before with
  | finish | line =>
      rw [tokensFrom, List.mem_singleton] at ht
      subst ht
      cases hkind
  | openString | openComment =>
      simp only [tokensFrom, List.mem_cons, List.not_mem_nil, or_false] at ht
      obtain rfl | rfl := ht <;> cases hkind
  | @word offset p pieces last _ hword _ ih =>
      rw [layout_cons] at htext
      obtain rfl | ht := List.mem_cons.1 ht
      · obtain rfl := eq_of_byteLength_eq htext (Nat.add_left_cancel hoffset)
        have hpos := List.length_pos_iff.2 hword.spelling_ne_nil
        refine ⟨p, ?_, rfl⟩
        rw [locate, if_neg (lt_irrefl _), if_pos (by omega), Nat.sub_self]
      · rw [← List.append_assoc] at htext
        have hle := offset_le_of_mem_tokensFrom ht
        obtain ⟨behind, rfl, hrest⟩ := exists_eq_append_of_byteLength_le htext (by omega)
        rw [locate_behind]
        refine ih hrest ht ?_
        rw [hoffset, byteLength_append (p.gap ++ p.spelling), Nat.add_assoc]

theorem IsGap.head {c : Char} {rest : List Char} (h : IsGap (c :: rest)) :
    isBlank c ∨ c = '/' := by
  have htrivia : ∀ {gap}, Trivia gap → ∀ c ∈ gap.head?, isBlank c ∨ c = '/' := by
    intro gap hgap c hc
    cases hgap <;> cases hc
    · exact .inl ‹_›
    · exact .inr rfl
    · exact .inr rfl
  generalize hcons : c :: rest = gap at h
  cases h with
  | closed hgap => exact htrivia hgap c (by rw [← hcons]; rfl)
  | @opened gap comment hgap hcomment =>
      cases gap with
      | nil =>
          cases hcomment <;>
            · obtain ⟨rfl, -⟩ := List.cons.inj hcons
              exact .inr rfl
      | cons d gap =>
          obtain ⟨rfl, -⟩ := List.cons.inj hcons
          exact htrivia hgap c rfl

/-- What stands behind a word without a gap is the next word. -/
theorem exists_next {pieces : List Piece} {last : List Char} {offset : Nat} {c : Char}
    {rest : List Char} (hlaid : Laid offset pieces last) (htaken : Taken last pieces)
    (htext : layout pieces last = c :: rest) (hblank : isBlank c = false) (hslash : c ≠ '/') :
    ∃ q back, pieces = q :: back ∧ q.gap = [] ∧ q.kind = (readLexeme c rest).kind := by
  obtain ⟨hlast, hgaps⟩ := hlaid.isGap
  have hno : ∀ {more}, ¬ IsGap (c :: more) := fun hgap =>
    hgap.head.elim (fun hb => by rw [hb] at hblank; contradiction) hslash
  cases pieces with
  | nil =>
      rw [layout_nil] at htext
      exact absurd (htext ▸ hlast) hno
  | cons q back =>
      rw [layout_cons] at htext
      have hgap : q.gap = [] := by
        cases hgap : q.gap with
        | nil => rfl
        | cons d more =>
            rw [hgap] at htext
            obtain ⟨rfl, -⟩ := List.cons.inj htext
            exact absurd (hgap ▸ hgaps q List.mem_cons_self) hno
      rw [hgap, List.nil_append] at htext
      have hspelling : q.spelling ≠ [] := by
        cases hlaid with
        | word _ hword => exact hword.spelling_ne_nil
        | openString => nofun
        | openComment => simp at hgap
      obtain ⟨d, more, hd, hread⟩ := htaken.1 hspelling
      rw [hd, List.cons_append] at htext
      obtain ⟨rfl, rfl⟩ := List.cons.inj htext
      exact ⟨q, back, rfl, hgap, by rw [hread]⟩

/-- What a point or a letter is that the number before it does not take: a point may begin another
number, a letter begins a name. -/
def LeftOver (c : Char) (more : List Char) (kind : TokenKind) : Prop :=
  c = '.' ∧ BeginsNumber (c :: more) ∧ (∃ x, kind = .number x) ∨
    c = '.' ∧ ¬ BeginsNumber (c :: more) ∧ kind = .dot ∨
    (c = 'e' ∨ c = 'E') ∧ kind = .identifier

theorem leftOver_readLexeme {c : Char} (h : c = '.' ∨ c = 'e' ∨ c = 'E') (more : List Char) :
    LeftOver c more (readLexeme c more).kind := by
  obtain rfl | hletter := h
  · by_cases hbegins : BeginsNumber ('.' :: more)
    · have hstarts := beginsNumber_cons.1 hbegins
      exact .inl ⟨rfl, hbegins, _, congrArg Lexeme.kind (readLexeme_of_startsNumber hstarts)⟩
    · have hstarts := mt beginsNumber_cons.2 hbegins
      refine .inr (.inl ⟨rfl, hbegins, ?_⟩)
      rw [readLexeme, if_neg hstarts]
      rfl
  · refine .inr (.inr ⟨hletter, ?_⟩)
    obtain rfl | rfl := hletter <;> rfl

/-! ## Whole sources -/

/-- The words of a source and the gaps around them, each word as it is read where it stands. -/
structure ReadOut (source : String) (pieces : List Piece) (last : List Char) : Prop
    extends LaidOut source pieces last where
  taken : Taken last pieces

theorem exists_readOut (source : String) : ∃ pieces last, ReadOut source pieces last :=
  let ⟨pieces, last, hchars, hlaid, htokens, htaken⟩ := exists_laid_taken source.toList 0
  ⟨pieces, last, ⟨hchars, hlaid, htokens⟩, htaken⟩

section

variable {source : String} {pieces : List Piece} {last before rest : List Char}

/-- The token of a word is a token of the source, and so are those of what follows it. -/
theorem ReadOut.exists_scan_eq (h : ReadOut source pieces last) {front back : List Piece}
    {p : Piece} (hpieces : pieces = front ++ p :: back) :
    ∃ tokens, Token.scan source = tokens ++ p.tokenAt (byteLength (layout front p.gap)) ::
      tokensFrom last (byteLength (layout front p.gap) + byteLength p.spelling) back := by
  obtain ⟨tokens, htokens⟩ := tokensFrom_append front (p :: back) last 0
  refine ⟨tokens, ?_⟩
  rw [h.tokens, hpieces, htokens, tokensFrom, Nat.zero_add, layout_eq_append front p.gap]
  simp only [byteLength_append, Nat.add_assoc]

/-- A number is a word of the source. -/
theorem ReadOut.exists_word (h : ReadOut source pieces last) {t : Token} {x : Float}
    (hsplit : source.toList = before ++ rest) (ht : t ∈ Token.scan source)
    (hoffset : t.offset = byteLength before) (hkind : t.kind = .number x) :
    ∃ front p back, pieces = front ++ p :: back ∧ before = layout front p.gap ∧
      rest = p.spelling ++ layout back last ∧ p.TakenAt (layout back last) ∧
      t = p.tokenAt (byteLength before) ∧ locate last pieces before.length = .word p 0 := by
  rw [h.chars] at hsplit
  rw [h.tokens] at ht
  obtain ⟨p, hlocate, htoken⟩ := locate_of_mem_tokensFrom h.laid hsplit ht
    (hoffset.trans (Nat.zero_add _).symm) hkind
  obtain ⟨front, back, hpieces, hbefore, hrest, hread⟩ := takenAt_of_locate h.taken hsplit hlocate
  exact ⟨front, p, back, hpieces, hbefore, hrest, hread, hoffset ▸ htoken, hlocate⟩

/-- A number starts wherever it can. -/
theorem ReadOut.number_iff (h : ReadOut source pieces last)
    (hsplit : source.toList = before ++ rest) :
    (∃ t ∈ Token.scan source, t.offset = byteLength before ∧ ∃ x, t.kind = .number x) ↔
      BeginsNumber rest ∧ ¬ (locate last pieces before.length).Inside := by
  constructor
  · rintro ⟨t, ht, hoffset, x, hkind⟩
    obtain ⟨front, p, back, -, -, rfl, hread, rfl, hlocate⟩ :=
      h.exists_word hsplit ht hoffset hkind
    rw [hlocate]
    exact ⟨(hread.number_spec hkind).1, lt_irrefl 0⟩
  · rintro ⟨hbegins, hinside⟩
    rw [h.chars] at hsplit
    cases hlocate : locate last pieces before.length with
    | gap gap i =>
        obtain ⟨c, more, rfl, -⟩ := id hbegins
        have hblank := isBlank_of_startsNumber (beginsNumber_cons.1 hbegins)
        have hin := inComment_of_locate_gap h.laid.isGap.1 h.laid.isGap.2 hsplit hblank hlocate
        rw [hlocate] at hinside
        exact absurd hin hinside
    | word p i =>
        rw [hlocate] at hinside
        obtain rfl := Nat.eq_zero_of_not_pos hinside
        obtain ⟨front, back, hpieces, rfl, rfl, hread⟩ :=
          takenAt_of_locate h.taken hsplit hlocate
        obtain ⟨tokens, hscan⟩ := h.exists_scan_eq hpieces
        refine ⟨p.tokenAt (byteLength (layout front p.gap)), ?_, rfl, hread.exists_number hbegins⟩
        rw [hscan]
        exact List.mem_append_right _ List.mem_cons_self

/-- A point or a letter behind a number is the first character of the next word. -/
theorem ReadOut.exists_leftOver (h : ReadOut source pieces last) {front back : List Piece}
    {p : Piece} {c : Char} {more : List Char} (hpieces : pieces = front ++ p :: back)
    (hbehind : layout back last = c :: more) (hc : c = '.' ∨ c = 'e' ∨ c = 'E') :
    ∃ u, [p.tokenAt (byteLength (layout front p.gap)), u] <:+: Token.scan source ∧
      u.offset = byteLength (layout front p.gap) + byteLength p.spelling ∧
      LeftOver c more u.kind := by
  have hblank : isBlank c = false ∧ c ≠ '/' := by
    obtain rfl | rfl | rfl := hc <;> decide
  have hall : Laid 0 (front ++ [p] ++ back) last := by
    rw [List.append_assoc, List.singleton_append, ← hpieces]
    exact h.laid
  obtain ⟨start, hlaid⟩ := hall.of_append
  have htaken := (hpieces ▸ h.taken).of_append.2
  obtain ⟨q, behind, rfl, hgap, hkind⟩ := exists_next hlaid htaken hbehind hblank.1 hblank.2
  obtain ⟨tokens, hscan⟩ := h.exists_scan_eq hpieces
  rw [tokensFrom, hgap, byteLength_nil, Nat.add_zero] at hscan
  have hleft : LeftOver c more q.kind := hkind ▸ leftOver_readLexeme hc more
  refine ⟨q.tokenAt (byteLength (layout front p.gap) + byteLength p.spelling), ?_, rfl, hleft⟩
  rw [hscan, List.append_cons, List.append_cons, List.append_assoc tokens]
  exact List.infix_append _ _ _

end

namespace Token

/-- Numbers are the longest ones, and they start wherever they can.

A number starts at a place of the source exactly if a digit stands there, or a point with a digit
behind it, and the place is neither in a comment nor behind the first character of another word.
Its text is the longest beginning of what follows that has the form of a number.  A point or a
letter that it leaves behind is the first character of the next word.  The text is the text of a
float, and the value of the number is that float. -/
theorem scan_numbers (source : String) :
    ∃ pieces last, LaidOut source pieces last ∧
      (∀ before rest, source.toList = before ++ rest →
        ((∃ t ∈ Token.scan source, t.offset = byteLength before ∧ ∃ x, t.kind = .number x) ↔
          BeginsNumber rest ∧ ¬ (locate last pieces before.length).Inside)) ∧
      ∀ t ∈ Token.scan source, ∀ x, t.kind = .number x →
        ∃ before rest, source.toList = before ++ rest ∧ t.offset = byteLength before ∧
          LongestNumber t.text.toList rest ∧
          Number.float? t.text = some x ∧ x.isNaN = false ∧
          ∀ c more, rest = t.text.toList ++ c :: more → c = '.' ∨ c = 'e' ∨ c = 'E' →
            ∃ u, [t, u] <:+: Token.scan source ∧
              u.offset = t.offset + byteLength t.text.toList ∧ LeftOver c more u.kind := by
  obtain ⟨pieces, last, h⟩ := exists_readOut source
  refine ⟨pieces, last, h.toLaidOut, fun before rest hsplit => h.number_iff hsplit, ?_⟩
  intro t ht x hkind
  obtain ⟨before, rest, hsplit, hoffset⟩ := mem_boundaries_iff.1 (isValid_offset ht)
  obtain ⟨front, p, back, hpieces, rfl, rfl, hread, rfl, -⟩ :=
    h.exists_word hsplit ht hoffset.symm hkind
  obtain ⟨-, htext, hlongest, hfloat, hnan⟩ := hread.number_spec hkind
  have hchars : (p.tokenAt (byteLength (layout front p.gap))).text.toList = p.spelling := by
    rw [Piece.tokenAt, String.toList_ofList, htext]
  have hstring : (p.tokenAt (byteLength (layout front p.gap))).text = String.ofList p.spelling :=
    congrArg String.ofList htext
  rw [hchars, hstring]
  refine ⟨_, _, hsplit, hoffset.symm, hlongest, hfloat, hnan, ?_⟩
  intro c more hrest hc
  exact h.exists_leftOver hpieces (List.append_cancel_left hrest) hc

end Token

end ToneGraph
