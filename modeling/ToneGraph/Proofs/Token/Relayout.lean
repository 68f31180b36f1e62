import ToneGraph.Proofs.Token.Layout
/-!
# Other gaps between the same words

If every gap of a source begins with a blank, no word can run into the next one: each is read as it
stands, since the reader of words stops in front of a blank.  So the gaps may be exchanged for
others of that kind, and scanning finds the same words again, at other offsets.

The words themselves may have been found with no gap between them at all.

## Main definitions

* `Separates`: a gap that begins with a blank and closes its comments.
* `regap`: the same words with other gaps.

## Main statements

* `scanFrom_layout`: words with such gaps are read as they stand.
* `Token.words_scan_regap`: a source with other gaps has the same tokens at other offsets.
-/

namespace ToneGraph

open Text

/-- A gap that begins with a blank, with all comments closed. -/
def Separates (gap : List Char) : Prop :=
  Trivia gap ∧ ∃ c ∈ gap.head?, isBlank c

theorem Separates.atBlank_append {gap : List Char} (h : Separates gap) (rest : List Char) :
    AtBlank (gap ++ rest) := by
  obtain ⟨-, c, hc, hblank⟩ := h
  intro d hd
  rw [List.head?_append, hc, Option.some_or] at hd
  cases hd
  exact hblank

theorem atBlank_layout {pieces : List Piece} {last : List Char}
    (hpieces : ∀ p ∈ pieces, Separates p.gap) (hlast : Separates last) :
    AtBlank (layout pieces last) := by
  cases pieces with
  | nil =>
      have hblank := hlast.atBlank_append []
      rwa [List.append_nil] at hblank
  | cons p pieces =>
      rw [layout_cons]
      exact (hpieces p List.mem_cons_self).atBlank_append _

/-- A word in front of a blank stands where the gap before it ends. -/
theorem IsWord.atWord_append {kind : TokenKind} {text spelling rest : List Char}
    (h : IsWord kind text spelling) (hrest : AtBlank rest) : AtWord (spelling ++ rest) := by
  obtain ⟨c, more, rfl, hblank, -⟩ := h.readLexeme_append hrest
  refine atWord_cons.2 ⟨hblank, ?_⟩
  rintro rfl
  obtain rfl := h.slash
  exact ⟨fun hhead => absurd (hrest _ hhead) (by decide),
    fun hhead => absurd (hrest _ hhead) (by decide)⟩

/-- Words between gaps that begin with a blank are read as they stand. -/
theorem scanFrom_layout {pieces : List Piece} {last : List Char}
    (hwords : ∀ p ∈ pieces, IsWord p.kind p.text p.spelling)
    (hpieces : ∀ p ∈ pieces, Separates p.gap) (hlast : Separates last) (offset : Nat) :
    scanFrom (layout pieces last) offset = tokensFrom last offset pieces := by
  induction pieces generalizing offset with
  | nil =>
      have hskip := hlast.1.skipGap_append [] offset
      rw [List.append_nil, atWord_nil.skipGap_eq] at hskip
      exact scanFrom_of_end hskip
  | cons p pieces ih =>
      rw [List.forall_mem_cons] at hwords hpieces
      have hrest := atBlank_layout hpieces.2 hlast
      obtain ⟨c, more, hspelling, -, hread⟩ := hwords.1.readLexeme_append hrest
      have hskip : skipGap (layout (p :: pieces) last) offset =
          ⟨c :: (more ++ layout pieces last), offset + byteLength p.gap, none⟩ := by
        rw [layout_cons, hpieces.1.1.skipGap_append,
          (hwords.1.atWord_append hrest).skipGap_eq, hspelling, List.cons_append]
      rw [scanFrom_of_word hskip, hread, ih hwords.2 hpieces.2, Nat.add_assoc, ← byteLength_append]
      rfl

/-! ## Exchanging the gaps -/

/-- The same words with other gaps before them. -/
def regap (pieces : List Piece) (gaps : List (List Char)) : List Piece :=
  pieces.zipWith (fun p gap => { p with gap }) gaps

/-- The words of a source and the gaps around them, as scanning finds them. -/
structure LaidOut (source : String) (pieces : List Piece) (last : List Char) : Prop where
  chars : source.toList = layout pieces last
  laid : Laid 0 pieces last
  tokens : Token.scan source = tokensFrom last 0 pieces

/-- Whether a token reports a string or a comment that is never closed. -/
def TokenKind.isUnterminated : TokenKind → Bool
  | .invalid .unterminatedString | .invalid (.unterminatedComment _) => true
  | _ => false

theorem Laid.words {offset : Nat} {pieces : List Piece} {last : List Char}
    (h : Laid offset pieces last) (hclosed : ∀ p ∈ pieces, p.kind.isUnterminated = false) :
    ∀ p ∈ pieces, IsWord p.kind p.text p.spelling := by
  induction h with
  | finish => nofun
  | line => nofun
  | word _ hword _ ih =>
      rw [List.forall_mem_cons] at hclosed ⊢
      exact ⟨hword, ih hclosed.2⟩
  | openString => exact absurd (hclosed _ List.mem_cons_self) nofun
  | openComment => exact absurd (hclosed _ List.mem_cons_self) nofun

/-- What a token is, wherever it stands. -/
def Token.word (t : Token) : TokenKind × String :=
  (t.kind, t.text)

def Piece.word (p : Piece) : TokenKind × String :=
  (p.kind, String.ofList p.text)

theorem words_tokensFrom (pieces : List Piece) (last : List Char) (offset : Nat) :
    (tokensFrom last offset pieces).map Token.word = pieces.map Piece.word ++ [(.eof, "")] := by
  induction pieces generalizing offset with
  | nil => rfl
  | cons p pieces ih =>
      rw [tokensFrom, List.map_cons, ih]
      rfl

theorem words_regap {pieces : List Piece} {gaps : List (List Char)}
    (hcount : gaps.length = pieces.length) :
    (regap pieces gaps).map Piece.word = pieces.map Piece.word := by
  induction pieces generalizing gaps with
  | nil => rfl
  | cons p pieces ih =>
      cases gaps with
      | nil => contradiction
      | cons gap gaps => exact congrArg (p.word :: ·) (ih (Nat.succ.inj hcount))

theorem forall_mem_regap {pieces : List Piece} {gaps : List (List Char)}
    (hwords : ∀ p ∈ pieces, IsWord p.kind p.text p.spelling) (hgaps : ∀ gap ∈ gaps, Separates gap) :
    ∀ p ∈ regap pieces gaps, IsWord p.kind p.text p.spelling ∧ Separates p.gap := by
  induction pieces generalizing gaps with
  | nil => nofun
  | cons p pieces ih =>
      cases gaps with
      | nil => nofun
      | cons gap gaps =>
          rw [List.forall_mem_cons] at hwords hgaps
          exact List.forall_mem_cons.2 ⟨⟨hwords.1, hgaps.1⟩, ih hwords.2 hgaps.2⟩

/-- A source whose strings and comments are closed has the same tokens, at other offsets, if its
gaps are exchanged for others that begin with a blank. -/
theorem Token.words_scan_regap {source source' : String} {pieces : List Piece}
    {last last' : List Char} {gaps : List (List Char)} (hsource : LaidOut source pieces last)
    (hclosed : ∀ t ∈ Token.scan source, t.kind.isUnterminated = false)
    (hcount : gaps.length = pieces.length) (hgaps : ∀ gap ∈ gaps, Separates gap)
    (hlast : Separates last') (hsource' : source'.toList = layout (regap pieces gaps) last') :
    (Token.scan source').map Token.word = (Token.scan source).map Token.word := by
  have hkinds : ∀ p ∈ pieces, p.kind.isUnterminated = false := by
    intro p hp
    have hmem : p.word ∈ (Token.scan source).map Token.word := by
      rw [hsource.tokens, words_tokensFrom]
      exact List.mem_append_left _ (List.mem_map_of_mem hp)
    obtain ⟨t, ht, hword⟩ := List.mem_map.1 hmem
    have hkind : t.kind = p.kind := congrArg Prod.fst hword
    rw [← hkind]
    exact hclosed t ht
  have hall := forall_mem_regap (hsource.laid.words hkinds) hgaps
  have hscan : Token.scan source' = tokensFrom last' 0 (regap pieces gaps) := by
    rw [Token.scan, hsource']
    exact scanFrom_layout (fun p hp => (hall p hp).1) (fun p hp => (hall p hp).2) hlast 0
  rw [hscan, hsource.tokens, words_tokensFrom, words_tokensFrom, words_regap hcount]

end ToneGraph
