import ToneGraph.Proofs.Token.Gap
import ToneGraph.Proofs.Token.Word
/-!
# How a source is laid out

A source is its words and the gaps between them, in order and with nothing left over.  Scanning
finds both: every token stands for one word and says where that word starts, so the source can be
put together again from gaps and spellings.

The scanner keeps the rest of the text and a byte offset.  Its invariant is that the offset is the
length of all gaps and spellings that it has left behind, so offsets always fall between characters.

## Main definitions

* `Piece`, `layout`: a word with the gap before it, and the text that some words make up.
* `Laid`: which gaps and words may stand in a source.

## Main statements

* `Token.scan_lossless`: a source is the gaps and the words of its tokens.
-/

namespace ToneGraph

open Text

/-! ## Bytes of a string -/

theorem utf8ByteSize_ofList (text : List Char) :
    (String.ofList text).utf8ByteSize = byteLength text := by
  induction text with
  | nil => rfl
  | cons c text ih =>
      rw [String.ofList_cons, String.utf8ByteSize_append, String.utf8ByteSize_singleton, ih,
        byteLength_cons]

theorem byteLength_toList (source : String) : byteLength source.toList = source.utf8ByteSize := by
  rw [← utf8ByteSize_ofList, String.ofList_toList]

/-- The place behind some first characters of a source falls between characters. -/
theorem isValid_byteLength {source : String} {before after : List Char}
    (h : source.toList = before ++ after) :
    String.Pos.Raw.IsValid source ⟨byteLength before⟩ := by
  refine String.Pos.Raw.isValid_iff_exists_append.2
    ⟨String.ofList before, String.ofList after, ?_, ?_⟩
  · rw [← String.ofList_append, ← h, String.ofList_toList]
  · rw [String.rawEndPos, utf8ByteSize_ofList]

/-! ## Gaps and words in order -/

/-- A word of a source, with the gap before it and what its token keeps of it. -/
structure Piece where
  gap : List Char
  kind : TokenKind
  text : List Char
  spelling : List Char

/-- The token of a word that starts at `offset`. -/
def Piece.tokenAt (p : Piece) (offset : Nat) : Token :=
  ⟨p.kind, String.ofList p.text, offset⟩

/-- The text of some words with the gaps before them, and of the gap behind the last one. -/
def layout (pieces : List Piece) (last : List Char) : List Char :=
  pieces.flatMap (fun p => p.gap ++ p.spelling) ++ last

@[simp] theorem layout_nil (last : List Char) : layout [] last = last := rfl

theorem layout_cons (p : Piece) (pieces : List Piece) (last : List Char) :
    layout (p :: pieces) last = p.gap ++ (p.spelling ++ layout pieces last) := by
  simp [layout]

/-- The gaps and words that may stand in a source, the first gap at `offset`.  A gap is blanks and
closed comments, and the last one may end with a line comment.  If a string is never closed, it is
the last word.  If a block comment is never closed, it belongs to the last gap, and the token that
reports it stands for no word. -/
inductive Laid : (offset : Nat) → List Piece → (last : List Char) → Prop
  | finish {offset gap} : Trivia gap → Laid offset [] gap
  | line {offset gap body} : Trivia gap → '\n' ∉ body → Laid offset [] (gap ++ '/' :: '/' :: body)
  | word {offset p pieces last} : Trivia p.gap → IsWord p.kind p.text p.spelling →
      Laid (offset + byteLength (p.gap ++ p.spelling)) pieces last → Laid offset (p :: pieces) last
  | openString {offset gap quote spelling value} : Trivia gap → quote = '"' ∨ quote = '\'' →
      OpenSpells quote spelling value →
      Laid offset [⟨gap, .invalid .unterminatedString, value, quote :: spelling⟩] []
  | openComment {offset gap body} : Trivia gap → NoClosing body →
      Laid offset [⟨gap ++ '/' :: '*' :: body,
        .invalid (.unterminatedComment (offset + byteLength gap)), [], []⟩] []

/-- The tokens of some words, the gap before the first one at `offset`. -/
def tokensFrom (last : List Char) : (offset : Nat) → List Piece → List Token
  | offset, [] => [⟨.eof, "", offset + byteLength last⟩]
  | offset, p :: pieces => p.tokenAt (offset + byteLength p.gap) ::
      tokensFrom last (offset + byteLength (p.gap ++ p.spelling)) pieces

/-- A word is the one that is read in front of the text `behind`. -/
def Piece.TakenAt (p : Piece) (behind : List Char) : Prop :=
  ∃ c more, p.spelling = c :: more ∧
    readLexeme c (more ++ behind) = ⟨p.kind, p.text, p.spelling, behind⟩

/-- Every word is the one that is read where it stands. -/
def Taken (last : List Char) : List Piece → Prop
  | [] => True
  | p :: pieces => (p.spelling ≠ [] → p.TakenAt (layout pieces last)) ∧ Taken last pieces

/-! ## Scanning finds them -/

theorem scanFrom_of_unclosed {text : List Char} {offset stop start : Nat}
    (h : skipGap text offset = ⟨[], stop, some start⟩) :
    scanFrom text offset =
      [⟨.invalid (.unterminatedComment start), "", stop⟩, ⟨.eof, "", stop⟩] := by
  rw [scanFrom.eq_def, h]

theorem scanFrom_of_end {text : List Char} {offset stop : Nat}
    (h : skipGap text offset = ⟨[], stop, none⟩) : scanFrom text offset = [⟨.eof, "", stop⟩] := by
  rw [scanFrom.eq_def, h]

theorem scanFrom_of_word {text rest : List Char} {c : Char} {offset start : Nat}
    (h : skipGap text offset = ⟨c :: rest, start, none⟩) :
    scanFrom text offset =
      ⟨(readLexeme c rest).kind, String.ofList (readLexeme c rest).text, start⟩ ::
        scanFrom (readLexeme c rest).rest (start + byteLength (readLexeme c rest).spelling) := by
  rw [scanFrom.eq_def, h]

/-- What is read is taken. -/
theorem takenAt_readLexeme (gap : List Char) (c : Char) (rest : List Char) :
    Piece.TakenAt ⟨gap, (readLexeme c rest).kind, (readLexeme c rest).text,
      (readLexeme c rest).spelling⟩ (readLexeme c rest).rest := by
  have happ := Lexeme.spelling_append_rest c rest
  obtain ⟨d, more, hspelling⟩ := List.exists_cons_of_ne_nil (Lexeme.spelling_ne_nil c rest)
  rw [hspelling, List.cons_append, List.cons.injEq] at happ
  obtain ⟨rfl, hrest⟩ := happ
  exact ⟨d, more, hspelling, by rw [hrest]⟩

/-- A text is laid out in gaps and words, and scanning finds the tokens of these, each word as it
is read. -/
theorem exists_laid_taken (text : List Char) (offset : Nat) :
    ∃ pieces last, text = layout pieces last ∧ Laid offset pieces last ∧
      scanFrom text offset = tokensFrom last offset pieces ∧ Taken last pieces := by
  induction hcount : text.length using Nat.strongRecOn generalizing text offset with
  | _ count ih =>
      subst hcount
      have hskip := skipped_skipGap text offset
      generalize hgap : skipGap text offset = g at hskip
      cases hskip with
      | @line gap body htrivia hbody =>
          exact ⟨[], _, rfl, .line htrivia hbody, scanFrom_of_end hgap, trivial⟩
      | @block gap body htrivia hbody =>
          refine ⟨_, [], ?_, .openComment htrivia hbody, ?_, fun hne => absurd rfl hne, trivial⟩
          · simp [layout]
          · rw [scanFrom_of_unclosed hgap]
            simp [tokensFrom, Piece.tokenAt]
      | @word gap rest htrivia hword =>
          cases rest with
          | nil =>
              refine ⟨[], gap ++ [], rfl, .finish ?_, ?_, trivial⟩
              · rwa [List.append_nil]
              · rw [scanFrom_of_end hgap, List.append_nil]
                rfl
          | cons c behind =>
              have happ := Lexeme.spelling_append_rest c behind
              have htaken := takenAt_readLexeme gap c behind
              have hlen : (readLexeme c behind).rest.length < (gap ++ c :: behind).length := by
                have hle := readLexeme_length_le c behind
                rw [List.length_append, List.length_cons]
                omega
              rw [scanFrom_of_word hgap, Nat.add_assoc, ← byteLength_append]
              rcases isWord_readLexeme (atWord_cons.1 hword).1 with
                hw | ⟨hquote, hkind, hrest, spelling, hspelling, hopen⟩
              · obtain ⟨pieces, last, htext, hlaid, hscan, htail⟩ := ih _ hlen
                  (readLexeme c behind).rest
                  (offset + byteLength (gap ++ (readLexeme c behind).spelling)) rfl
                refine ⟨⟨gap, _, _, _⟩ :: pieces, last, ?_, .word htrivia hw hlaid, ?_, ?_, htail⟩
                · rw [layout_cons, ← htext, happ]
                · rw [hscan]
                  rfl
                · exact fun _ => htext ▸ htaken
              · rw [hkind, hspelling, hrest] at htaken
                refine ⟨_, [], ?_, .openString htrivia hquote hopen, ?_, fun _ => htaken, trivial⟩
                · rw [layout_cons, ← happ, hrest, hspelling]
                  rfl
                · rw [hrest, scanFrom_of_end (atWord_nil.skipGap_eq _), hkind, hspelling]
                  rfl

theorem exists_laid (text : List Char) (offset : Nat) :
    ∃ pieces last, text = layout pieces last ∧ Laid offset pieces last ∧
      scanFrom text offset = tokensFrom last offset pieces :=
  let ⟨pieces, last, htext, hlaid, hscan, _⟩ := exists_laid_taken text offset
  ⟨pieces, last, htext, hlaid, hscan⟩

/-! ## Whole sources -/

/-- A word starts behind all words before it and all gaps up to its own, and the input ends behind
everything. -/
theorem tokensFrom_eq_mapIdx (pieces : List Piece) (last : List Char) (offset : Nat) :
    tokensFrom last offset pieces =
      (pieces.mapIdx fun j p => p.tokenAt (offset + byteLength (layout (pieces.take j) p.gap))) ++
        [⟨.eof, "", offset + byteLength (layout pieces last)⟩] := by
  induction pieces generalizing offset with
  | nil => rfl
  | cons p pieces ih =>
      rw [tokensFrom, ih, List.mapIdx_cons, List.cons_append]
      simp only [List.take_succ_cons, List.take_zero, layout_nil, layout_cons, byteLength_append,
        Nat.add_assoc]

theorem IsWord.kind_ne_eof {kind : TokenKind} {text spelling : List Char}
    (h : IsWord kind text spelling) : kind ≠ .eof := by
  intro heof
  cases h with
  | number | string | name => contradiction
  | single =>
      unfold singleKind at heof
      repeat' split at heof
      all_goals contradiction

theorem Laid.kind_ne_eof {offset : Nat} {pieces : List Piece} {last : List Char}
    (h : Laid offset pieces last) : ∀ p ∈ pieces, p.kind ≠ .eof := by
  induction h with
  | finish => nofun
  | line => nofun
  | word _ hword _ ih => exact List.forall_mem_cons.2 ⟨hword.kind_ne_eof, ih⟩
  | openString => exact List.forall_mem_singleton.2 nofun
  | openComment => exact List.forall_mem_singleton.2 nofun

/-- The text up to a word is the front of the whole text. -/
theorem exists_layout_eq_append (pieces : List Piece) (last : List Char) {j : Nat}
    (hj : j < pieces.length) :
    ∃ after, layout pieces last = layout (pieces.take j) pieces[j].gap ++ after := by
  refine ⟨pieces[j].spelling ++ layout (pieces.drop (j + 1)) last, ?_⟩
  have hsplit : pieces = pieces.take j ++ pieces[j] :: pieces.drop (j + 1) := by
    rw [← List.drop_eq_getElem_cons hj, List.take_append_drop]
  have hflat := congrArg (List.flatMap fun p => p.gap ++ p.spelling) hsplit
  rw [List.flatMap_append, List.flatMap_cons] at hflat
  rw [layout, hflat]
  simp only [layout, List.append_assoc]

namespace Token

/-- A source is laid out in gaps and words, and its tokens start where the words do. -/
theorem exists_scan_eq (source : String) :
    ∃ pieces last, source.toList = layout pieces last ∧ Laid 0 pieces last ∧
      Token.scan source =
        (pieces.mapIdx fun j p => p.tokenAt (byteLength (layout (pieces.take j) p.gap))) ++
          [⟨.eof, "", source.utf8ByteSize⟩] := by
  obtain ⟨pieces, last, hsource, hlaid, hscan⟩ := exists_laid source.toList 0
  replace hscan : Token.scan source = _ := hscan
  simp only [tokensFrom_eq_mapIdx, Nat.zero_add, ← hsource, byteLength_toList] at hscan
  exact ⟨pieces, last, hsource, hlaid, hscan⟩

/-- Tokens start between characters. -/
theorem isValid_offset {source : String} {t : Token} (ht : t ∈ Token.scan source) :
    String.Pos.Raw.IsValid source ⟨t.offset⟩ := by
  obtain ⟨pieces, last, hsource, -, hscan⟩ := exists_scan_eq source
  rw [hscan, List.mem_append, List.mem_singleton, List.mem_mapIdx] at ht
  rcases ht with ⟨j, hj, rfl⟩ | rfl
  · obtain ⟨after, happ⟩ := exists_layout_eq_append pieces last hj
    exact isValid_byteLength (hsource.trans happ)
  · rw [← byteLength_toList]
    exact isValid_byteLength (List.append_nil _).symm

/-- Every source has an end of input. -/
theorem exists_eof (source : String) : ∃ t ∈ Token.scan source, t.kind = .eof := by
  obtain ⟨pieces, last, -, -, hscan⟩ := exists_scan_eq source
  rw [hscan]
  exact ⟨_, List.mem_append_right _ List.mem_cons_self, rfl⟩

end Token

end ToneGraph
