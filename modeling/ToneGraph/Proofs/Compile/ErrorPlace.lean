import ToneGraph.Proofs.Compile.Relocation
import ToneGraph.Proofs.Expr.ErrorPosition
import ToneGraph.Proofs.Graph.Building
/-!
# Where a refused source is wrong

Whatever stage refuses a source, the report points at a token, or at the start of the source.  An
error about a call points at the name that is called.  Errors that only an arena from elsewhere can
have are never reported, and neither is a name that stands for nothing without being called.

The first stage is blamed for an invalid token where the parser cannot go on without looking at it.
A level too many is refused before that: there the parser does not look at the token at all.

## Main definitions

* `Failure.Blames`: the errors that compiling gives, with the offset that each is about.
* `StopsAtInvalid`: the parser stops at an invalid token.

## Main statements

* `compile_error_place`: where a report points, and when the first stage is blamed.
-/

namespace ToneGraph

/-- The errors that compiling gives, with the offset that each is about: there is nothing to parse,
a syntax error at a token, a called name that is wrong, no sample rate, or a call of `delay` that is
wrong.  There is no rule for a name that is not called, nor for a missing root, a dangling input, a
cycle, or a node with a wrong number of inputs. -/
inductive Failure.Blames (tokens : List Token) : Failure → (offset : Nat) → Prop
  | nothing : Blames tokens (.syntactic ⟨.emptyInput, 0⟩) 0
  | syntactic {err t} : t ∈ tokens → t.offset = err.offset →
      Blames tokens (.syntactic err) t.offset
  | semantic {err offset} : err.Blames tokens offset → Blames tokens (.semantic err) offset
  | build {err offset} : err.Blames tokens offset → Blames tokens (.build err) offset

/-- The parser comes to an invalid token where an operand should stand, or what closes an argument
or a group, or the end of the input. -/
def StopsAtInvalid (tokens : List Token) : Prop :=
  ∃ us t rest issue halt, tokens = us ++ t :: rest ∧ t.kind = .invalid issue ∧
    Grammar.Halts maxDepth us t halt ∧ (halt = .operand ∨ halt = .closing ∨ halt = .finish)

/-! ## The token to blame -/

theorem Failure.Blames.eq_zero_or_mem {tokens : List Token} {failure : Failure} {offset : Nat}
    (h : failure.Blames tokens offset) : offset = 0 ∨ ∃ t ∈ tokens, t.offset = offset := by
  cases h with
  | nothing => exact .inl rfl
  | syntactic ht => exact .inr ⟨_, ht, rfl⟩
  | semantic h =>
      cases h with
      | unknownFunction ht | arity ht => exact .inr ⟨_, ht, rfl⟩
  | build h =>
      cases h with
      | sampleRate => exact .inl rfl
      | variableDelay ht | delayOutOfRange ht => exact .inr ⟨_, ht, rfl⟩

/-- The offset of a token, and 0, fall between characters. -/
theorem Failure.Blames.isValid {source : String} {failure : Failure} {offset : Nat}
    (h : failure.Blames (Token.scan source) offset) :
    String.Pos.Raw.IsValid source ⟨offset⟩ := by
  rcases h.eq_zero_or_mem with rfl | ⟨t, ht, rfl⟩
  · exact isValid_byteLength (List.nil_append source.toList).symm
  · exact Token.isValid_offset ht

/-- The calls of a parsed expression are written as names. -/
theorem Expr.named_of_parse {tokens : List Token} {e : Expr} (h : Expr.parse tokens = .ok e) :
    e.Named tokens :=
  (Expr.parse_eq_ok_iff.1 h).named (List.takeWhile_subset _)

/-- Compiling gives no other errors, and gives them where they belong. -/
theorem blames_of_compileTokens {settings : BuildSettings} {tokens : List Token}
    (hend : ∃ t ∈ tokens, t.kind = .eof) {failure : Failure}
    (h : compileTokens settings tokens = .error failure) :
    failure.Blames tokens failure.report.offset := by
  rcases compileTokens_eq_error_iff.1 h with ⟨err, hparse, rfl⟩ |
    ⟨e, hparse, ⟨err, hcheck, rfl⟩ | ⟨c, hcheck, err, hbuild, rfl⟩⟩
  · rcases Expr.exists_token_of_parse_error hend hparse with rfl | ⟨t, ht, hoffset⟩
    · exact .nothing
    · rw [Failure.report, Rejection.ofSyntax, ← hoffset]
      exact .syntactic ht hoffset
  · exact .semantic ((Expr.named_of_parse hparse).blames_of_check hcheck)
  · exact .build (((Expr.named_of_parse hparse).of_check hcheck).blames_of_build hbuild)

/-! ## The first stage -/

theorem Expr.exists_lexical_of_stopsAtInvalid {tokens : List Token} (h : StopsAtInvalid tokens) :
    ∃ err, Expr.parse tokens = .error err ∧ err.fault.isLexical := by
  obtain ⟨us, t, rest, issue, halt, rfl, hkind, hhalt, hplace⟩ := h
  have hlevel : ∀ t, halt ≠ .level t := by
    rintro t rfl
    simp at hplace
  have hus : ∀ t ∈ us, t.kind ≠ .eof := by
    obtain ⟨more, e, hphrase⟩ := hhalt.exists_expression hlevel
    exact fun t ht => hphrase.kind_ne_eof t (List.mem_append_left more ht)
  have ht : t.kind ≠ .eof := by simp [hkind]
  exact ⟨_, Expr.parse_of_halts hus ht hhalt ⟨0, none⟩ rest,
    (halt.isLexical_error_iff _ t).2 ⟨⟨issue, hkind⟩, hplace⟩⟩

/-- A syntax error is lexical exactly if the parser stops at an invalid token. -/
theorem Expr.isLexical_iff_stopsAtInvalid {tokens : List Token} {err : SyntaxError}
    (h : Expr.parse tokens = .error err) : err.fault.isLexical ↔ StopsAtInvalid tokens := by
  constructor
  · intro hlexical
    rcases Expr.parse_eq_error_iff.1 h with ⟨-, rfl⟩ | ⟨-, us, rest, halt, hsplit, hhalt, rfl⟩
    · contradiction
    obtain ⟨⟨issue, hkind⟩, hplace⟩ := (halt.isLexical_error_iff _ _).1 hlexical
    cases rest with
    | nil => contradiction
    | cons t more =>
        obtain ⟨after, htokens⟩ := Expr.exists_eq_parseBody_append tokens
        refine ⟨us, t, more ++ after, issue, halt, htokens.trans ?_, hkind, hhalt, hplace⟩
        rw [hsplit, List.append_assoc, List.cons_append]
  · intro hstops
    obtain ⟨err', hparse, hlexical⟩ := Expr.exists_lexical_of_stopsAtInvalid hstops
    rw [h] at hparse
    cases hparse
    exact hlexical

/-- The first stage is blamed exactly if the parser stops at an invalid token. -/
theorem stage_eq_lexer_iff {settings : BuildSettings} {tokens : List Token} {failure : Failure}
    (h : compileTokens settings tokens = .error failure) :
    failure.report.stage = .lexer ↔ StopsAtInvalid tokens := by
  have haccepted : ∀ e, Expr.parse tokens = .ok e → ¬ StopsAtInvalid tokens := by
    intro e hparse hstops
    obtain ⟨err, herror, -⟩ := Expr.exists_lexical_of_stopsAtInvalid hstops
    rw [hparse] at herror
    contradiction
  rcases compileTokens_eq_error_iff.1 h with ⟨err, hparse, rfl⟩ |
    ⟨e, hparse, ⟨err, hcheck, rfl⟩ | ⟨c, hcheck, err, hbuild, rfl⟩⟩
  · rw [← Expr.isLexical_iff_stopsAtInvalid hparse]
    simp [Failure.report, Rejection.ofSyntax]
  · simp [Failure.report, Rejection.ofSemantic, haccepted e hparse]
  · simp [Failure.report, Rejection.ofBuild, haccepted e hparse]

/-! ## Parentheses in front of an invalid token -/

/-- Opening parentheses in a row, the first at `offset`. -/
def parens (offset : Nat) : Nat → List Token
  | 0 => []
  | n + 1 => ⟨.leftParen, "(", offset⟩ :: parens (offset + 1) n

theorem scanFrom_leftParen (text : List Char) (offset : Nat) :
    scanFrom ('(' :: text) offset = ⟨.leftParen, "(", offset⟩ :: scanFrom text (offset + 1) := by
  have hword : AtWord ('(' :: text) := atWord_cons.2 ⟨rfl, fun h => absurd h (by decide)⟩
  exact scanFrom_of_word (hword.skipGap_eq offset)

theorem scanFrom_parens (n : Nat) (text : List Char) (offset : Nat) :
    scanFrom (List.replicate n '(' ++ text) offset =
      parens offset n ++ scanFrom text (offset + n) := by
  induction n generalizing offset with
  | zero => rfl
  | succ n ih =>
      rw [List.replicate_succ, List.cons_append, scanFrom_leftParen, ih, parens, List.cons_append,
        Nat.add_right_comm, Nat.add_assoc]

/-- Behind parentheses, the parser halts where an expression that much deeper halts. -/
theorem Grammar.expressionHalts_parens {limit depth offset : Nat} {next : Token} {halt : Halt}
    (n : Nat) (hdepth : depth + n ≤ limit + 1)
    (h : ExpressionHalts limit (depth + n) [] next halt) :
    ExpressionHalts limit depth (parens offset n) next halt := by
  induction n generalizing depth offset with
  | zero => exact h
  | succ n ih =>
      rw [Nat.add_comm n 1, ← Nat.add_assoc] at h hdepth
      exact .additive (by omega) (.first (.first (.primary (.group rfl (ih hdepth h)))))

theorem kind_of_mem_parens {offset n : Nat} : ∀ t ∈ parens offset n, t.kind ≠ .eof := by
  induction n generalizing offset with
  | zero => simp [parens]
  | succ n ih => exact List.forall_mem_cons.2 ⟨by simp, ih⟩

/-- Opening parentheses with a character behind them that begins no word. -/
def openings (n : Nat) : String :=
  String.ofList (List.replicate n '(' ++ ['@'])

/-- The token of that character. -/
def strange (n : Nat) : Token :=
  ⟨.invalid (.unexpectedChar '@'), "@", n⟩

theorem scan_openings (n : Nat) :
    Token.scan (openings n) = parens 0 n ++ [strange n, ⟨.eof, "", n + 1⟩] := by
  have hword : AtWord ['@'] := atWord_cons.2 ⟨rfl, fun h => absurd h (by decide)⟩
  have hlast : scanFrom ['@'] n = [strange n, ⟨.eof, "", n + 1⟩] := by
    rw [scanFrom_of_word (hword.skipGap_eq n)]
    exact congrArg _ (scanFrom_of_end (atWord_nil.skipGap_eq (n + 1)))
  rw [Token.scan, openings, String.toList_ofList, scanFrom_parens, Nat.zero_add, hlast]

/-- How the parentheses are refused, by the way the parser halts behind them. -/
theorem compile_openings (settings : BuildSettings) {n : Nat} {halt : Halt}
    (h : Grammar.Halts maxDepth (parens 0 n) (strange n) halt) (ctx : Context) :
    compile settings (openings n) = .error (.ofSyntax (halt.error ctx (strange n))) := by
  have hstrange : (strange n).kind ≠ .eof := by simp [strange]
  have hparse := Expr.parse_of_halts kind_of_mem_parens hstrange h ctx [⟨.eof, "", n + 1⟩]
  rw [← scan_openings] at hparse
  rw [compile_eq, compileTokens_eq_error_iff.2 (.inl ⟨_, hparse, rfl⟩)]
  rfl

/-! ## Whole sources -/

/-- If a source is refused, the report points between characters of the source, or at its end, and
that is where the token to blame starts, or the start of the source if there is nothing to parse or
no sample rate.  A validator error is about a name that is called, and it names it.  A builder error
is about the sample rate, or about a name `delay` that is called.  The lexer is blamed exactly if
the parser stops at an invalid token, as long as the depth is not exhausted there. -/
theorem compile_error_place {settings : BuildSettings} {source : String} {r : Rejection}
    (h : compile settings source = .error r) :
    r.offset ≤ source.utf8ByteSize ∧ String.Pos.Raw.IsValid source ⟨r.offset⟩ ∧
      (∃ failure, compileTokens settings (Token.scan source) = .error failure ∧
        r = failure.report ∧ failure.Blames (Token.scan source) r.offset) ∧
      (r.stage = .lexer ↔ StopsAtInvalid (Token.scan source)) := by
  rw [compile_eq] at h
  obtain ⟨failure, hfailure, rfl⟩ := mapError_eq_error_iff.1 h
  have hblames := blames_of_compileTokens (Token.exists_eof source) hfailure
  have hvalid := hblames.isValid
  exact ⟨hvalid.le_utf8ByteSize, hvalid, ⟨failure, hfailure, rfl, hblames⟩,
    stage_eq_lexer_iff hfailure⟩

/-- In `(@` the parser wants an operand and stops at the `@`. -/
theorem compile_open_strange :
    let settings := BuildSettings.ofSampleRate 48000.0
    let r : Rejection := ⟨.lexer, 1, "unexpected character '@'"⟩
    compile settings (openings 1) = .error r ∧ r.offset ≤ (openings 1).utf8ByteSize ∧
      String.Pos.Raw.IsValid (openings 1) ⟨r.offset⟩ ∧
      (∃ failure, compileTokens settings (Token.scan (openings 1)) = .error failure ∧
        r = failure.report ∧ failure.Blames (Token.scan (openings 1)) r.offset) ∧
      (r.stage = .lexer ↔ StopsAtInvalid (Token.scan (openings 1))) := by
  intro settings r
  have hhalt : Grammar.Halts maxDepth (parens 0 1) (strange 1) .operand :=
    .inside (Grammar.expressionHalts_parens 1 (by decide)
      (.additive (by decide) (.first (.first (.primary (.operand rfl))))))
  have hcompile : compile settings (openings 1) = .error r :=
    compile_openings settings hhalt ⟨0, none⟩
  exact ⟨hcompile, compile_error_place hcompile⟩

/-- Behind as many parentheses as may be nested, the parser stops at the `@` just as well.  With one
more level it would want an operand there, but it has no level left for what the `@` begins, and
refuses it for that. -/
theorem compile_deep_strange :
    let settings := BuildSettings.ofSampleRate 48000.0
    let r : Rejection := ⟨.parser, 256, "expression nested too deeply"⟩
    Token.scan (openings 256) = parens 0 256 ++ [strange 256, ⟨.eof, "", 257⟩] ∧
      Grammar.Halts (maxDepth + 1) (parens 0 256) (strange 256) .operand ∧
      compile settings (openings 256) = .error r ∧ r.offset = (strange 256).offset ∧
      r.stage ≠ .lexer := by
  intro settings r
  have hwanted : Grammar.Halts (maxDepth + 1) (parens 0 256) (strange 256) .operand :=
    .inside (Grammar.expressionHalts_parens 256 (by decide)
      (.additive (by decide) (.first (.first (.primary (.operand rfl))))))
  have hhalt : Grammar.Halts maxDepth (parens 0 256) (strange 256) (.level (strange 256)) :=
    .inside (Grammar.expressionHalts_parens 256 (by decide) (.level (by decide)))
  have hcompile : compile settings (openings 256) = .error r :=
    compile_openings settings hhalt ⟨0, none⟩
  exact ⟨scan_openings 256, hwanted, hcompile, rfl, by decide⟩

end ToneGraph
