import ToneGraph.Proofs.Graph.Relocation
import ToneGraph.Proofs.Token.Relayout
/-!
# Moving the tokens of a source

All stages behind the scanner commute with moving tokens, so compiling does.  What is left of an
offset in the end is the one in the report, and that is the offset of the token to blame, wherever
it has been moved, or 0 if no token is to blame.

A source is a list of words with offsets.  If the tokens are numbered, their offsets are one such
move, so two sources of the same words are compiled as one list of numbered tokens.

## Main definitions

* `Failure`: the error of a stage before it becomes a report.
* `compileTokens`: the stages behind the scanner.
* `numbered`: words with their places in the list for offsets.

## Main statements

* `compile_eq`: compiling a source is compiling its tokens.
* `compileTokens_relocate`: compiling commutes with moving the tokens.
-/

namespace ToneGraph

/-- The error of the stage that failed. -/
inductive Failure where
  | syntactic (err : SyntaxError)
  | semantic (err : SemanticError)
  | build (err : BuildError)

namespace Failure

/-- What is reported of an error. -/
def report : Failure → Rejection
  | syntactic err => .ofSyntax err
  | semantic err => .ofSemantic err
  | build err => .ofBuild err

/-- The offset that the error is about, if there is one. -/
def origin : Failure → Option Nat
  | syntactic ⟨.emptyInput, _⟩ => none
  | syntactic err => some err.offset
  | semantic err => some err.offset
  | build err => err.origin

/-- The error at another offset. -/
def relocate (f : Nat → Nat) : Failure → Failure
  | syntactic err => .syntactic (err.relocate f)
  | semantic err => .semantic (err.relocate f)
  | build err => .build (err.relocate f)

/-- Moving an error changes nothing in its report but the offset. -/
theorem report_relocate (f : Nat → Nat) (failure : Failure) :
    (failure.relocate f).report =
      ⟨failure.report.stage, (failure.origin.map f).getD 0, failure.report.message⟩ := by
  cases failure with
  | syntactic err =>
      obtain ⟨fault, offset⟩ := err
      cases fault <;> rfl
  | semantic err => cases err <;> rfl
  | build err => cases err <;> rfl

end Failure

/-- The stages behind the scanner. -/
def compileTokens (settings : BuildSettings) (tokens : List Token) : Except Failure Graph := do
  let e ← (Expr.parse tokens).mapError .syntactic
  let c ← e.check.mapError .semantic
  (c.build settings).mapError .build

/-- Compiling fails in the first stage that fails. -/
theorem compileTokens_eq_error_iff {settings : BuildSettings} {tokens : List Token}
    {failure : Failure} :
    compileTokens settings tokens = .error failure ↔
      (∃ err, Expr.parse tokens = .error err ∧ .syntactic err = failure) ∨
      ∃ e, Expr.parse tokens = .ok e ∧
        ((∃ err, e.check = .error err ∧ .semantic err = failure) ∨
          ∃ c, e.check = .ok c ∧ ∃ err, c.build settings = .error err ∧ .build err = failure) := by
  simp only [compileTokens, bind_eq_error_iff, mapError_eq_error_iff, mapError_eq_ok_iff]

/-- Compiling a source is compiling its tokens. -/
theorem compile_eq (settings : BuildSettings) (source : String) :
    compile settings source =
      (compileTokens settings (Token.scan source)).mapError Failure.report := by
  rw [compile, checkSource, parseSource, compileTokens]
  cases Expr.parse (Token.scan source) with
  | error err => rfl
  | ok e =>
      show (e.check.mapError Rejection.ofSemantic >>= _) =
        (e.check.mapError Failure.semantic >>= _).mapError Failure.report
      cases e.check with
      | error err => rfl
      | ok c =>
          show (c.build settings).mapError Rejection.ofBuild =
            ((c.build settings).mapError Failure.build).mapError Failure.report
          cases c.build settings <;> rfl

theorem mapError_mapBoth {ε ε' α α' : Type} {f : α → α'} {g : ε → ε} {g' : ε' → ε'}
    {x : Except ε α} {x' : Except ε α'} (hx : x' = mapBoth f g x) (k : ε → ε')
    (hk : ∀ why, k (g why) = g' (k why)) : x'.mapError k = mapBoth f g' (x.mapError k) := by
  rw [hx]
  cases x with
  | error why => exact congrArg Except.error (hk why)
  | ok a => rfl

/-- Compiling commutes with moving the tokens. -/
theorem compileTokens_relocate (f : Nat → Nat) (settings : BuildSettings) {tokens : List Token}
    (hend : ∃ t ∈ tokens, t.kind = .eof) :
    compileTokens settings (tokens.map (Token.relocate f)) =
      mapBoth id (Failure.relocate f) (compileTokens settings tokens) :=
  have hparse := mapError_mapBoth (Expr.parse_relocate f hend) Failure.syntactic fun _ => rfl
  mapBoth_bind hparse fun e =>
    mapBoth_bind (mapError_mapBoth (e.check_relocate f) Failure.semantic fun _ => rfl) fun c =>
      mapError_mapBoth (c.build_relocate f settings) Failure.build fun _ => rfl

/-! ## Numbered tokens -/

/-- Words with their places in the list for offsets. -/
def numbered (words : List (TokenKind × String)) : List Token :=
  words.mapIdx fun i word => ⟨word.1, word.2, i⟩

/-- The offset of the token at a place, and 0 behind the last. -/
def offsetAt (tokens : List Token) (i : Nat) : Nat :=
  (tokens[i]?.map Token.offset).getD 0

/-- A token list is its words, moved to their offsets. -/
theorem numbered_relocate (tokens : List Token) :
    (numbered (tokens.map Token.word)).map (Token.relocate (offsetAt tokens)) = tokens := by
  refine List.ext_getElem? fun i => ?_
  rw [List.getElem?_map, numbered, List.getElem?_mapIdx, List.getElem?_map]
  cases hi : tokens[i]? with
  | none => rfl
  | some t =>
      have hoffset : offsetAt tokens i = t.offset := by rw [offsetAt, hi]; rfl
      simp [Token.relocate, Token.word, hoffset]

theorem exists_eof_numbered {words : List (TokenKind × String)}
    (h : ∃ word ∈ words, word.1 = .eof) : ∃ t ∈ numbered words, t.kind = .eof := by
  obtain ⟨word, hword, hkind⟩ := h
  obtain ⟨i, hi, rfl⟩ := List.getElem_of_mem hword
  exact ⟨⟨words[i].1, words[i].2, i⟩, List.mem_mapIdx.2 ⟨i, hi, rfl⟩, hkind⟩

/-- What a source is compiled to, by its words and its offsets. -/
theorem compile_eq_of_words {source : String} (hend : ∃ t ∈ Token.scan source, t.kind = .eof)
    (settings : BuildSettings) :
    compile settings source =
      (mapBoth id (Failure.relocate (offsetAt (Token.scan source)))
        (compileTokens settings (numbered ((Token.scan source).map Token.word)))).mapError
          Failure.report := by
  have hwords : ∃ word ∈ (Token.scan source).map Token.word, word.1 = .eof := by
    obtain ⟨t, ht, hkind⟩ := hend
    exact ⟨t.word, List.mem_map_of_mem ht, hkind⟩
  rw [compile_eq, ← compileTokens_relocate _ settings (exists_eof_numbered hwords),
    numbered_relocate]

end ToneGraph
