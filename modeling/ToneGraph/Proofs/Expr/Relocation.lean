import ToneGraph.Proofs.Expr.ErrorPosition
/-!
# Moving tokens

The readers pass offsets on and never look at them.  So a token list whose tokens are moved to other
offsets is parsed to the same tree with its nodes moved along, or is refused with the same fault,
reported where the blamed token has gone.  Only the error for an empty input stays where it is.

It is enough to say this of the rules: phrases stay phrases and halts stay halts when their tokens
move.

## Main definitions

* `Token.relocate`, `Expr.relocate`, `SyntaxError.relocate`: offsets sent through a function.

## Main statements

* `Expr.parse_relocate`: parsing commutes with moving the tokens.
* `Expr.exists_token_of_parse_error`: so an error stands at a token.
-/

namespace ToneGraph

/-- The token at another offset. -/
def Token.relocate (f : Nat → Nat) (t : Token) : Token :=
  { t with offset := f t.offset }

/-- The error at another offset; that there is nothing is always said at the start. -/
def SyntaxError.relocate (f : Nat → Nat) (err : SyntaxError) : SyntaxError :=
  match err.fault with
  | .emptyInput => ⟨.emptyInput, 0⟩
  | fault => ⟨fault, f err.offset⟩

namespace Expr

mutual

/-- The expression with its nodes at other offsets. -/
def relocate (f : Nat → Nat) : Expr → Expr
  | number value offset => .number value (f offset)
  | identifier name offset => .identifier name (f offset)
  | call callee args offset => .call callee (relocateAll f args) (f offset)
  | binary op left right offset => .binary op (relocate f left) (relocate f right) (f offset)
  | negate operand offset => .negate (relocate f operand) (f offset)

/-- Several expressions with their nodes at other offsets. -/
def relocateAll (f : Nat → Nat) : List Expr → List Expr
  | [] => []
  | e :: rest => relocate f e :: relocateAll f rest

end

end Expr

/-! ## Phrases -/

namespace Grammar

variable {limit : Nat} (f : Nat → Nat)

mutual

/-- A phrase stays a phrase when its tokens move. -/
theorem Expression.relocate {depth : Nat} {us : List Token} {e : Expr} :
    Expression limit depth us e → Expression limit depth (us.map (Token.relocate f)) (e.relocate f)
  | .additive hdepth h => .additive hdepth h.relocate

theorem Additive.relocate {depth k : Nat} {us : List Token} {e : Expr} :
    Additive limit depth k us e →
    Additive limit depth k (us.map (Token.relocate f)) (e.relocate f)
  | .first h => .first h.relocate
  | .next (t := t) hleft hkind hadd hdepth hright => by
      rw [List.map_append, List.map_cons, Expr.relocate]
      exact .next (t := t.relocate f) hleft.relocate hkind hadd hdepth hright.relocate

theorem Multiplicative.relocate {depth k : Nat} {us : List Token} {e : Expr} :
    Multiplicative limit depth k us e →
    Multiplicative limit depth k (us.map (Token.relocate f)) (e.relocate f)
  | .first h => .first h.relocate
  | .next (t := t) hleft hkind hmul hdepth hright => by
      rw [List.map_append, List.map_cons, Expr.relocate]
      exact .next (t := t.relocate f) hleft.relocate hkind hmul hdepth hright.relocate

theorem Unary.relocate {depth : Nat} {us : List Token} {e : Expr} :
    Unary limit depth us e → Unary limit depth (us.map (Token.relocate f)) (e.relocate f)
  | .primary h => .primary h.relocate
  | .minus (t := t) hkind hdepth h => .minus (t := t.relocate f) hkind hdepth h.relocate

theorem Primary.relocate {depth : Nat} {us : List Token} {e : Expr} :
    Primary limit depth us e → Primary limit depth (us.map (Token.relocate f)) (e.relocate f)
  | .number (t := t) hkind => .number (t := t.relocate f) hkind
  | .group hopen h hclose => by
      rw [List.map_cons, List.map_append]
      exact .group hopen h.relocate hclose
  | .callNone hname hopen hclose => .callNone hname hopen hclose
  | .call hname hopen h hclose => by
      rw [List.map_cons, List.map_cons, List.map_append, Expr.relocate]
      exact .call hname hopen h.relocate hclose
  | .time (t := t) hkind htext => .time (t := t.relocate f) hkind htext

theorem Arguments.relocate {depth : Nat} {us : List Token} {args : List Expr} :
    Arguments limit depth us args →
    Arguments limit depth (us.map (Token.relocate f)) (Expr.relocateAll f args)
  | .last h => .last h.relocate
  | .more h hcomma hargs => by
      rw [List.map_append, List.map_cons, Expr.relocateAll]
      exact .more h.relocate hcomma hargs.relocate

end

end Grammar

/-! ## Halts -/

/-- The halt with the token that it is about at another offset. -/
def Halt.relocate (f : Nat → Nat) : Halt → Halt
  | level t => .level (t.relocate f)
  | operand => .operand
  | call name => .call (name.relocate f)
  | closing => .closing
  | finish => .finish

namespace Grammar

variable {limit : Nat} (f : Nat → Nat)

theorem head?_relocate {P : Token → Prop} (hP : ∀ t, P (t.relocate f) ↔ P t) {us : List Token} :
    (∀ t ∈ (us.map (Token.relocate f)).head?, P t) ↔ ∀ t ∈ us.head?, P t := by
  cases us with
  | nil => simp
  | cons t us => simp [hP]

theorem EndsSum.relocate {us rest : List Token} (h : EndsSum us rest) :
    EndsSum (us.map (Token.relocate f)) (rest.map (Token.relocate f)) := by
  obtain ⟨⟨hunary, hmul⟩, hadd⟩ := h
  refine ⟨⟨?_, ?_⟩, ?_⟩
  · intro t ht hparen u hu
    rw [List.head?_map] at ht
    rw [List.getLast?_map] at hu
    obtain ⟨t', ht', rfl⟩ := Option.map_eq_some_iff.1 ht
    obtain ⟨u', hu', rfl⟩ := Option.map_eq_some_iff.1 hu
    exact hunary t' ht' hparen u' hu'
  · exact (head?_relocate f fun _ => Iff.rfl).2 hmul
  · exact (head?_relocate f fun _ => Iff.rfl).2 hadd

mutual

/-- A halt stays a halt when the tokens move. -/
theorem ExpressionHalts.relocate {depth : Nat} {us : List Token} {next : Token} {halt : Halt} :
    ExpressionHalts limit depth us next halt →
    ExpressionHalts limit depth (us.map (Token.relocate f)) (next.relocate f) (halt.relocate f)
  | .level hdepth => .level hdepth
  | .additive hdepth h => .additive hdepth h.relocate

theorem AdditiveHalts.relocate {depth : Nat} {us : List Token} {next : Token} {halt : Halt} :
    AdditiveHalts limit depth us next halt →
    AdditiveHalts limit depth (us.map (Token.relocate f)) (next.relocate f) (halt.relocate f)
  | .first h => .first h.relocate
  | .level (t := t) hleft hkind hadd hdepth => by
      rw [List.map_append]
      exact .level (t := t.relocate f) (hleft.relocate f) hkind hadd hdepth
  | .next (t := t) hleft hkind hadd hdepth h => by
      rw [List.map_append]
      exact .next (t := t.relocate f) (hleft.relocate f) hkind hadd hdepth h.relocate

theorem MultiplicativeHalts.relocate {depth : Nat} {us : List Token} {next : Token}
    {halt : Halt} :
    MultiplicativeHalts limit depth us next halt →
    MultiplicativeHalts limit depth (us.map (Token.relocate f)) (next.relocate f)
      (halt.relocate f)
  | .first h => .first h.relocate
  | .level (t := t) hleft hkind hmul hdepth => by
      rw [List.map_append]
      exact .level (t := t.relocate f) (hleft.relocate f) hkind hmul hdepth
  | .next (t := t) hleft hkind hmul hdepth h => by
      rw [List.map_append]
      exact .next (t := t.relocate f) (hleft.relocate f) hkind hmul hdepth h.relocate

theorem UnaryHalts.relocate {depth : Nat} {us : List Token} {next : Token} {halt : Halt} :
    UnaryHalts limit depth us next halt →
    UnaryHalts limit depth (us.map (Token.relocate f)) (next.relocate f) (halt.relocate f)
  | .primary h => .primary h.relocate
  | .level (t := t) hkind hdepth => .level (t := t.relocate f) hkind hdepth
  | .minus (t := t) hkind hdepth h => .minus (t := t.relocate f) hkind hdepth h.relocate

theorem PrimaryHalts.relocate {depth : Nat} {us : List Token} {next : Token} {halt : Halt} :
    PrimaryHalts limit depth us next halt →
    PrimaryHalts limit depth (us.map (Token.relocate f)) (next.relocate f) (halt.relocate f)
  | .operand hnext => .operand hnext
  | .name (t := t) hname htext hnext => .name (t := t.relocate f) hname htext hnext
  | .group hopen h => .group hopen h.relocate
  | .closing hopen h hends hnext =>
      .closing hopen (h.relocate f) (hends.relocate f) hnext
  | .call hname hopen hhead h => by
      have hhead' := (head?_relocate f fun _ => Iff.rfl).2 hhead
      rw [List.map_append] at hhead'
      exact .call hname hopen hhead' h.relocate

theorem ArgumentsHalts.relocate {depth : Nat} {us : List Token} {next : Token} {halt : Halt} :
    ArgumentsHalts limit depth us next halt →
    ArgumentsHalts limit depth (us.map (Token.relocate f)) (next.relocate f) (halt.relocate f)
  | .last h => .last h.relocate
  | .closing h hends hcomma hclose => .closing (h.relocate f) (hends.relocate f) hcomma hclose
  | .more h hcomma hargs => by
      rw [List.map_append]
      exact .more (h.relocate f) hcomma hargs.relocate

end

theorem Halts.relocate {us : List Token} {next : Token} {halt : Halt} :
    Halts limit us next halt →
    Halts limit (us.map (Token.relocate f)) (next.relocate f) (halt.relocate f)
  | .inside h => .inside (h.relocate f)
  | .behind h hends hnext => .behind (h.relocate f) (hends.relocate f) hnext

end Grammar

/-! ## Errors -/

theorem Token.nest_relocate (f : Nat → Nat) (t : Token) (stack : List Nat) :
    (t.relocate f).nest (stack.map f) = (t.nest stack).map f := by
  unfold nest
  rw [show (t.relocate f).kind = t.kind from rfl]
  cases t.kind with
  | rightParen => exact List.map_tail.symm
  | _ => rfl

theorem openParens_relocate (f : Nat → Nat) (us : List Token) (stack : List Nat) :
    openParens (stack.map f) (us.map (Token.relocate f)) = (openParens stack us).map f := by
  induction us generalizing stack with
  | nil => rfl
  | cons t us ih => rw [List.map_cons, openParens_cons, openParens_cons, t.nest_relocate, ih]

/-- The context with both offsets moved. -/
def Context.relocate (f : Nat → Nat) (ctx : Context) : Context :=
  ⟨f ctx.stop, ctx.opened.map f⟩

theorem Context.endError_relocate (f : Nat → Nat) (ctx : Context) :
    (ctx.relocate f).endError = ctx.endError.relocate f := by
  obtain ⟨stop, opened⟩ := ctx
  cases opened <;> rfl

theorem upcoming_relocate (f : Nat → Nat) {ctx ctx' : Context} (h : ctx'.stop = f ctx.stop)
    (rest : List Token) :
    ctx'.upcoming (rest.map (Token.relocate f)) = (ctx.upcoming rest).relocate f := by
  cases rest with
  | nil => exact congrArg (Token.mk .eof "") h
  | cons t more => rfl

theorem behind_relocate (f : Nat → Nat) {ctx ctx' : Context} (h : ctx'.stop = f ctx.stop)
    (us : List Token) :
    ctx'.behind [] (us.map (Token.relocate f)) = (ctx.behind [] us).relocate f := by
  have hopen := openParens_relocate f us []
  rw [List.map_nil] at hopen
  rw [Context.behind, Context.behind, Context.relocate, hopen, List.head?_map, h]

theorem Halt.error_relocate (f : Nat → Nat) (halt : Halt) (ctx : Context) (next : Token) :
    (halt.relocate f).error (ctx.relocate f) (next.relocate f) =
      (halt.error ctx next).relocate f := by
  have hkind : (next.relocate f).kind = next.kind := rfl
  cases halt with
  | level t => rfl
  | call name => rfl
  | operand | closing =>
      rw [relocate, error, error, hkind]
      cases next.kind <;> first | rfl | exact ctx.endError_relocate f
  | finish =>
      rw [relocate, error, error, hkind]
      cases next.kind <;> rfl

/-! ## Whole token lists -/

namespace Expr

theorem parseBody_relocate (f : Nat → Nat) (tokens : List Token) :
    parseBody (tokens.map (Token.relocate f)) = (parseBody tokens).map (Token.relocate f) := by
  rw [parseBody, parseBody, List.takeWhile_map]
  rfl

theorem endOffset_relocate (f : Nat → Nat) {tokens : List Token}
    (hend : ∃ t ∈ tokens, t.kind = .eof) :
    endOffset (tokens.map (Token.relocate f)) = f (endOffset tokens) := by
  have hsome : (tokens.find? (·.kind = .eof)).isSome := by simpa using hend
  obtain ⟨stop, hstop⟩ := Option.isSome_iff_exists.1 hsome
  have hmap : (tokens.map (Token.relocate f)).find? (·.kind = .eof) = some (stop.relocate f) := by
    rw [List.find?_map]
    exact congrArg (Option.map _) hstop
  rw [endOffset, endOffset, hmap, hstop]
  rfl

/-- Parsing commutes with moving the tokens, provided that the input has an end to move. -/
theorem parse_relocate (f : Nat → Nat) {tokens : List Token}
    (hend : ∃ t ∈ tokens, t.kind = .eof) :
    Expr.parse (tokens.map (Token.relocate f)) =
      mapBoth (Expr.relocate f) (SyntaxError.relocate f) (Expr.parse tokens) := by
  have hbody := parseBody_relocate f tokens
  cases hparse : Expr.parse tokens with
  | ok e =>
      refine parse_eq_ok_iff.2 ?_
      rw [hbody]
      exact (parse_eq_ok_iff.1 hparse).relocate f
  | error err =>
      refine parse_eq_error_iff.2 ?_
      rw [hbody]
      rcases parse_eq_error_iff.1 hparse with
        ⟨hempty, rfl⟩ | ⟨hne, us, rest, halt, hsplit, hhalt, rfl⟩
      · exact .inl ⟨by rw [hempty]; rfl, rfl⟩
      · have hcontext : (parseContext (tokens.map (Token.relocate f))).stop =
            f (parseContext tokens).stop := endOffset_relocate f hend
        refine .inr ⟨by simpa using hne, us.map (Token.relocate f), rest.map (Token.relocate f),
          halt.relocate f, by rw [hsplit, List.map_append], ?_, ?_⟩
        · have hmoved := hhalt.relocate f
          rwa [← upcoming_relocate f hcontext] at hmoved
        · rw [upcoming_relocate f hcontext, behind_relocate f hcontext, halt.error_relocate]

/-- An error stands at a token, or says that there is nothing.  A move that leaves the tokens where
they are leaves the error where it is, and what is nowhere a token would be moved. -/
theorem exists_token_of_parse_error {tokens : List Token} (hend : ∃ t ∈ tokens, t.kind = .eof)
    {err : SyntaxError} (h : Expr.parse tokens = .error err) :
    err = ⟨.emptyInput, 0⟩ ∨ ∃ t ∈ tokens, t.offset = err.offset := by
  let f : Nat → Nat := fun i => if i ∈ tokens.map Token.offset then i else i + 1
  have hfixed : tokens.map (Token.relocate f) = tokens := by
    have hid : ∀ t ∈ tokens, t.relocate f = id t := by
      intro t ht
      have hoffset : f t.offset = t.offset := if_pos (List.mem_map_of_mem ht)
      rw [Token.relocate, hoffset, id]
    rw [List.map_congr_left hid, List.map_id]
  have hmoved := parse_relocate f hend
  rw [hfixed, h] at hmoved
  have herr : err = err.relocate f := Except.error.inj hmoved
  by_cases hmem : err.offset ∈ tokens.map Token.offset
  · exact .inr (List.mem_map.1 hmem)
  · left
    obtain ⟨fault, offset⟩ := err
    have hmove : f offset = offset + 1 := if_neg hmem
    cases fault with
    | emptyInput => exact herr
    | _ =>
        have hoffset : offset = f offset := congrArg SyntaxError.offset herr
        omega

end Expr

end ToneGraph
