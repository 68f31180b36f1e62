import ToneGraph.Proofs.Compile.Relocation
/-!
# Layout does not matter

How the words of a source are spaced and commented has no influence on what they mean.  If the gaps
are exchanged for others that begin with a blank, the scanner finds the same words, and the stages
behind it see the same token list with its tokens moved.

## Main statements

* `compile_regap`: a source with other gaps is compiled to the same graph, or refused for the same
  reason at the same token.
-/

namespace ToneGraph

/-- Two offsets of one place in two lists of equal length belong to two tokens, or the place is
behind both lists. -/
theorem offsetAt_cases {tokens tokens' : List Token} (hlen : tokens'.length = tokens.length)
    (i : Nat) :
    offsetAt tokens i = 0 ∧ offsetAt tokens' i = 0 ∨
      ∃ t t', tokens[i]? = some t ∧ tokens'[i]? = some t' ∧ offsetAt tokens i = t.offset ∧
        offsetAt tokens' i = t'.offset := by
  by_cases hi : i < tokens.length
  · have ht := List.getElem?_eq_getElem hi
    have ht' := List.getElem?_eq_getElem (hlen ▸ hi)
    exact .inr ⟨_, _, ht, ht', by rw [offsetAt, ht]; rfl, by rw [offsetAt, ht']; rfl⟩
  · have hnone := List.getElem?_eq_none (Nat.le_of_not_lt hi)
    have hnone' := List.getElem?_eq_none (hlen ▸ Nat.le_of_not_lt hi)
    exact .inl ⟨by rw [offsetAt, hnone]; rfl, by rw [offsetAt, hnone']; rfl⟩

/-- Two reports for the same reason about the same token of two lists, or about no token. -/
structure Rejection.Corresponds (tokens tokens' : List Token) (r r' : Rejection) : Prop where
  stage : r'.stage = r.stage
  message : r'.message = r.message
  place : r.offset = 0 ∧ r'.offset = 0 ∨ ∃ (i : Nat) (t t' : Token), tokens[i]? = some t ∧
    tokens'[i]? = some t' ∧ r.offset = t.offset ∧ r'.offset = t'.offset

/-- Sources of the same words are compiled to the same graph, or refused for the same reason at the
same token. -/
theorem compile_of_words {source source' : String}
    (hend : ∃ t ∈ Token.scan source, t.kind = .eof)
    (hwords : (Token.scan source').map Token.word = (Token.scan source).map Token.word)
    (settings : BuildSettings) :
    (∃ g, compile settings source = .ok g ∧ compile settings source' = .ok g) ∨
      ∃ r r', compile settings source = .error r ∧ compile settings source' = .error r' ∧
        r.Corresponds (Token.scan source) (Token.scan source') r' := by
  have hend' : ∃ t ∈ Token.scan source', t.kind = .eof := by
    obtain ⟨t, ht, hkind⟩ := hend
    have hmem : t.word ∈ (Token.scan source').map Token.word :=
      hwords ▸ List.mem_map_of_mem ht
    obtain ⟨t', ht', hword⟩ := List.mem_map.1 hmem
    exact ⟨t', ht', (congrArg Prod.fst hword).trans hkind⟩
  have hlen : (Token.scan source').length = (Token.scan source).length := by
    rw [← List.length_map Token.word, hwords, List.length_map]
  have hcompile := compile_eq_of_words hend settings
  have hcompile' := compile_eq_of_words hend' settings
  rw [hwords] at hcompile'
  cases houtcome : compileTokens settings (numbered ((Token.scan source).map Token.word)) with
  | ok g =>
      rw [houtcome] at hcompile hcompile'
      exact .inl ⟨g, hcompile, hcompile'⟩
  | error failure =>
      rw [houtcome] at hcompile hcompile'
      refine .inr ⟨_, _, hcompile, hcompile', ?_⟩
      rw [failure.report_relocate, failure.report_relocate]
      refine ⟨rfl, rfl, ?_⟩
      cases failure.origin with
      | none => exact .inl ⟨rfl, rfl⟩
      | some i => exact (offsetAt_cases hlen i).imp_right fun h => ⟨i, h⟩

/-- If the gaps of a source whose strings and comments are closed are exchanged for others that
begin with a blank and close their comments, the tokens stay the same but for their offsets.
Compiled with any settings, both sources give the same graph, and so the same samples, or both are
refused by the same stage with the same message, at the offset of the same token or at 0. -/
theorem compile_regap {source source' : String} {pieces : List Piece} {last last' : List Char}
    {gaps : List (List Char)} (hsource : LaidOut source pieces last)
    (hclosed : ∀ t ∈ Token.scan source, t.kind.isUnterminated = false)
    (hcount : gaps.length = pieces.length) (hgaps : ∀ gap ∈ gaps, Separates gap)
    (hlast : Separates last') (hsource' : source'.toList = layout (regap pieces gaps) last') :
    (Token.scan source').map Token.word = (Token.scan source).map Token.word ∧
      ∀ settings,
        (∃ g, compile settings source = .ok g ∧ compile settings source' = .ok g) ∨
          ∃ r r', compile settings source = .error r ∧ compile settings source' = .error r' ∧
            r.Corresponds (Token.scan source) (Token.scan source') r' := by
  have hwords := Token.words_scan_regap hsource hclosed hcount hgaps hlast hsource'
  exact ⟨hwords, compile_of_words (Token.exists_eof source) hwords⟩

/-- The source `saw(` with a comment in front of the parenthesis and a newline behind it. -/
theorem compile_regap_unclosed_call :
    let source := "saw("
    let source' := " saw /* low */ (\n"
    let pieces : List Piece :=
      [⟨[], .identifier, ['s', 'a', 'w'], ['s', 'a', 'w']⟩, ⟨[], .leftParen, ['('], ['(']⟩]
    let gaps := [[' '], " /* low */ ".toList]
    LaidOut source pieces [] ∧ (∀ t ∈ Token.scan source, t.kind.isUnterminated = false) ∧
      gaps.length = pieces.length ∧ (∀ gap ∈ gaps, Separates gap) ∧ Separates ['\n'] ∧
      source'.toList = layout (regap pieces gaps) ['\n'] ∧
      (Token.scan source').map Token.word = (Token.scan source).map Token.word ∧
      ∀ settings,
        (∃ g, compile settings source = .ok g ∧ compile settings source' = .ok g) ∨
          ∃ r r', compile settings source = .error r ∧ compile settings source' = .error r' ∧
            r.Corresponds (Token.scan source) (Token.scan source') r' := by
  intro source source' pieces gaps
  have hscan : Token.scan source = tokensFrom [] 0 pieces := by decide +kernel
  have hsource : LaidOut source pieces [] := by
    refine ⟨by decide, ?_, hscan⟩
    exact .word .nil (.name rfl (List.all_eq_true.1 rfl))
      (.word .nil (.single (c := '(') rfl rfl (by decide) rfl)
        (.finish .nil))
  have hclosed : ∀ t ∈ Token.scan source, t.kind.isUnterminated = false := by
    rw [hscan]
    decide
  have hcomment : Separates " /* low */ ".toList := by
    refine ⟨?_, ' ', rfl, rfl⟩
    have hbody : NoClosing " low ".toList := by
      unfold NoClosing
      decide
    exact .blank rfl (.block hbody (.blank rfl .nil))
  have hgaps : ∀ gap ∈ gaps, Separates gap := by
    rw [List.forall_mem_cons, List.forall_mem_singleton]
    exact ⟨⟨.blank rfl .nil, ' ', rfl, rfl⟩, hcomment⟩
  have hlast : Separates ['\n'] := ⟨.blank rfl .nil, '\n', rfl, rfl⟩
  have hsource' : source'.toList = layout (regap pieces gaps) ['\n'] := by decide
  exact ⟨hsource, hclosed, rfl, hgaps, hlast, hsource',
    compile_regap hsource hclosed rfl hgaps hlast hsource'⟩

end ToneGraph
