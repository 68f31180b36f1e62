import ToneGraph.Proofs.Expr.Parse
/-!
# Where reading stops

A token list that is no expression is refused at one token.  The rules of this module say which
tokens a reader has taken by then, in terms of whole phrases and of phrases that are begun, and what
it was waiting for in front of the token that it could not take.  They are the rules of
`ToneGraph.Grammar` cut off at every place where a reader may stop.

The error is a function of what was wanted and of the token that came instead.  It also names the
innermost parenthesis that is open, and that is found among the tokens taken: whole phrases close
every parenthesis that they open.

## Main definitions

* `Halt`: what a reader was waiting for.
* `Grammar.ExpressionHalts` and the rules below it, `Grammar.Halts`: the tokens before a halt.
* `openParens`: the parentheses that some tokens leave open.

## Main statements

* `Grammar.Expression.openParens_eq`: phrases leave no parenthesis open.
* `Grammar.ExpressionHalts.expressionAt_append`: the tokens before a halt are refused, whatever
  follows the token that stops them.
-/

namespace ToneGraph

/-! ## Parentheses that are open -/

/-- The offsets of the open parentheses behind a token, the innermost first. -/
def Token.nest (stack : List Nat) (t : Token) : List Nat :=
  match t.kind with
  | .leftParen => t.offset :: stack
  | .rightParen => stack.tail
  | _ => stack

/-- The offsets of the open parentheses behind some tokens, the innermost first. -/
def openParens (stack : List Nat) (us : List Token) : List Nat :=
  us.foldl Token.nest stack

@[simp] theorem openParens_nil (stack : List Nat) : openParens stack [] = stack := rfl

@[simp] theorem openParens_cons (stack : List Nat) (t : Token) (us : List Token) :
    openParens stack (t :: us) = openParens (t.nest stack) us := rfl

@[simp] theorem openParens_append (stack : List Nat) (us vs : List Token) :
    openParens stack (us ++ vs) = openParens (openParens stack us) vs :=
  List.foldl_append

theorem Token.nest_of_leftParen {t : Token} (ht : t.kind = .leftParen) (stack : List Nat) :
    t.nest stack = t.offset :: stack := by
  rw [nest, ht]

theorem Token.nest_of_rightParen {t : Token} (ht : t.kind = .rightParen) (stack : List Nat) :
    t.nest stack = stack.tail := by
  rw [nest, ht]

theorem Token.nest_of_operator {t : Token} {op : Operator} (ht : t.kind = .operator op)
    (stack : List Nat) : t.nest stack = stack := by
  rw [nest, ht]

theorem Token.nest_of_identifier {t : Token} (ht : t.kind = .identifier) (stack : List Nat) :
    t.nest stack = stack := by
  rw [nest, ht]

theorem Token.nest_of_comma {t : Token} (ht : t.kind = .comma) (stack : List Nat) :
    t.nest stack = stack := by
  rw [nest, ht]

namespace Grammar

variable {limit : Nat}

mutual

/-- An expression closes every parenthesis that it opens, and no other. -/
theorem Expression.openParens_eq {depth : Nat} {us : List Token} {e : Expr} (stack : List Nat) :
    Expression limit depth us e → openParens stack us = stack
  | .additive _ h => h.openParens_eq stack

theorem Additive.openParens_eq {depth k : Nat} {us : List Token} {e : Expr} (stack : List Nat) :
    Additive limit depth k us e → openParens stack us = stack
  | .first h => h.openParens_eq stack
  | .next hleft hkind _ _ hright => by
      rw [openParens_append, hleft.openParens_eq, openParens_cons, Token.nest_of_operator hkind,
        hright.openParens_eq]

theorem Multiplicative.openParens_eq {depth k : Nat} {us : List Token} {e : Expr}
    (stack : List Nat) : Multiplicative limit depth k us e → openParens stack us = stack
  | .first h => h.openParens_eq stack
  | .next hleft hkind _ _ hright => by
      rw [openParens_append, hleft.openParens_eq, openParens_cons, Token.nest_of_operator hkind,
        hright.openParens_eq]

theorem Unary.openParens_eq {depth : Nat} {us : List Token} {e : Expr} (stack : List Nat) :
    Unary limit depth us e → openParens stack us = stack
  | .primary h => h.openParens_eq stack
  | .minus hkind _ h => by
      rw [openParens_cons, Token.nest_of_operator hkind, h.openParens_eq]

theorem Primary.openParens_eq {depth : Nat} {us : List Token} {e : Expr} (stack : List Nat) :
    Primary limit depth us e → openParens stack us = stack
  | .number hkind => by
      rw [openParens_cons, openParens_nil, Token.nest, hkind]
  | .group hopen h hclose => by
      rw [openParens_cons, openParens_append, Token.nest_of_leftParen hopen, h.openParens_eq,
        openParens_cons, openParens_nil, Token.nest_of_rightParen hclose, List.tail_cons]
  | .callNone hname hopen hclose => by
      rw [openParens_cons, Token.nest_of_identifier hname, openParens_cons,
        Token.nest_of_leftParen hopen, openParens_cons, openParens_nil,
        Token.nest_of_rightParen hclose, List.tail_cons]
  | .call hname hopen h hclose => by
      rw [openParens_cons, Token.nest_of_identifier hname, openParens_cons, openParens_append,
        Token.nest_of_leftParen hopen, h.openParens_eq, openParens_cons, openParens_nil,
        Token.nest_of_rightParen hclose, List.tail_cons]
  | .time hkind _ => by
      rw [openParens_cons, openParens_nil, Token.nest_of_identifier hkind]

theorem Arguments.openParens_eq {depth : Nat} {us : List Token} {args : List Expr}
    (stack : List Nat) : Arguments limit depth us args → openParens stack us = stack
  | .last h => h.openParens_eq stack
  | .more h hcomma hargs => by
      rw [openParens_append, h.openParens_eq, openParens_cons, Token.nest_of_comma hcomma,
        hargs.openParens_eq]

end

end Grammar

/-! ## Halts -/

/-- What a reader was waiting for where it could go no further. -/
inductive Halt where
  /-- One more level, for what begins with the token. -/
  | level (t : Token)
  /-- An operand. -/
  | operand
  /-- The parenthesis that calls a name. -/
  | call (name : Token)
  /-- A comma or a closing parenthesis, behind an expression. -/
  | closing
  /-- The end of the input, behind the whole expression. -/
  | finish

/-- The error of a halt in front of a token. -/
def Halt.error (ctx : Context) (next : Token) : Halt → SyntaxError
  | level t => ⟨.tooDeep, t.offset⟩
  | operand =>
    match next.kind with
    | .eof => ctx.endError
    | .string _ => ⟨.stringLiteral, next.offset⟩
    | .invalid issue => ⟨.lexical issue, next.offset⟩
    | kind => ⟨.unexpected kind, next.offset⟩
  | call name => ⟨.expectedCall name.text, name.offset⟩
  | closing =>
    match next.kind with
    | .eof => ctx.endError
    | .invalid issue => ⟨.lexical issue, next.offset⟩
    | kind => ⟨.expectedSeparator kind, next.offset⟩
  | finish =>
    match next.kind with
    | .invalid issue => ⟨.lexical issue, next.offset⟩
    | .rightParen => ⟨.unmatchedClose, next.offset⟩
    | kind => ⟨.trailing kind, next.offset⟩

namespace Grammar

mutual

/-- Tokens of an expression before a halt in front of `next`. -/
inductive ExpressionHalts (limit : Nat) :
    (depth : Nat) → List Token → (next : Token) → Halt → Prop
  | level {depth next} : limit < depth → ExpressionHalts limit depth [] next (.level next)
  | additive {depth us next halt} : depth ≤ limit → AdditiveHalts limit depth us next halt →
      ExpressionHalts limit depth us next halt

/-- Tokens of a sum before a halt. -/
inductive AdditiveHalts (limit : Nat) :
    (depth : Nat) → List Token → (next : Token) → Halt → Prop
  | first {depth us next halt} : MultiplicativeHalts limit depth us next halt →
      AdditiveHalts limit depth us next halt
  | level {depth k us t next op left} : Additive limit depth k us left →
      t.kind = .operator (BinaryOp.operator op) → op.isAdditive → limit < depth + (k + 1) →
      AdditiveHalts limit depth (us ++ [t]) next (.level t)
  | next {depth k us t vs next halt op left} : Additive limit depth k us left →
      t.kind = .operator (BinaryOp.operator op) → op.isAdditive → depth + (k + 1) ≤ limit →
      MultiplicativeHalts limit (depth + (k + 1)) vs next halt →
      AdditiveHalts limit depth (us ++ t :: vs) next halt

/-- Tokens of a product before a halt. -/
inductive MultiplicativeHalts (limit : Nat) :
    (depth : Nat) → List Token → (next : Token) → Halt → Prop
  | first {depth us next halt} : UnaryHalts limit depth us next halt →
      MultiplicativeHalts limit depth us next halt
  | level {depth k us t next op left} : Multiplicative limit depth k us left →
      t.kind = .operator (BinaryOp.operator op) → op.isMultiplicative →
      limit < depth + (k + 1) → MultiplicativeHalts limit depth (us ++ [t]) next (.level t)
  | next {depth k us t vs next halt op left} : Multiplicative limit depth k us left →
      t.kind = .operator (BinaryOp.operator op) → op.isMultiplicative →
      depth + (k + 1) ≤ limit → UnaryHalts limit (depth + (k + 1)) vs next halt →
      MultiplicativeHalts limit depth (us ++ t :: vs) next halt

/-- Tokens of an operand of a product before a halt. -/
inductive UnaryHalts (limit : Nat) : (depth : Nat) → List Token → (next : Token) → Halt → Prop
  | primary {depth us next halt} : PrimaryHalts limit depth us next halt →
      UnaryHalts limit depth us next halt
  | level {depth t next} : t.kind = .operator .minus → limit < depth + 1 →
      UnaryHalts limit depth [t] next (.level t)
  | minus {depth t us next halt} : t.kind = .operator .minus → depth + 1 ≤ limit →
      UnaryHalts limit (depth + 1) us next halt → UnaryHalts limit depth (t :: us) next halt

/-- Tokens of a primary before a halt. -/
inductive PrimaryHalts (limit : Nat) : (depth : Nat) → List Token → (next : Token) → Halt → Prop
  | operand {depth next} : next.kind.startsExpression = false →
      PrimaryHalts limit depth [] next .operand
  | name {depth t next} : t.kind = .identifier → t.text ≠ "time" → next.kind ≠ .leftParen →
      PrimaryHalts limit depth [t] next (.call t)
  | group {depth opening us next halt} : opening.kind = .leftParen →
      ExpressionHalts limit (depth + 1) us next halt →
      PrimaryHalts limit depth (opening :: us) next halt
  | closing {depth opening us next e} : opening.kind = .leftParen →
      Expression limit (depth + 1) us e → EndsSum us [next] → next.kind ≠ .rightParen →
      PrimaryHalts limit depth (opening :: us) next .closing
  /-- A closing parenthesis right behind the opening one would end the call. -/
  | call {depth name opening us next halt} : name.kind = .identifier →
      opening.kind = .leftParen → (∀ t ∈ (us ++ [next]).head?, t.kind ≠ .rightParen) →
      ArgumentsHalts limit (depth + 1) us next halt →
      PrimaryHalts limit depth (name :: opening :: us) next halt

/-- Tokens of the arguments of a call before a halt. -/
inductive ArgumentsHalts (limit : Nat) :
    (depth : Nat) → List Token → (next : Token) → Halt → Prop
  | last {depth us next halt} : ExpressionHalts limit depth us next halt →
      ArgumentsHalts limit depth us next halt
  | closing {depth us next e} : Expression limit depth us e → EndsSum us [next] →
      next.kind ≠ .comma → next.kind ≠ .rightParen →
      ArgumentsHalts limit depth us next .closing
  | more {depth us comma vs next halt e} : Expression limit depth us e → comma.kind = .comma →
      ArgumentsHalts limit depth vs next halt →
      ArgumentsHalts limit depth (us ++ comma :: vs) next halt

end

/-- Tokens of a whole input before a halt. -/
inductive Halts (limit : Nat) : List Token → (next : Token) → Halt → Prop
  | inside {us next halt} : ExpressionHalts limit 1 us next halt → Halts limit us next halt
  | behind {us next e} : Expression limit 1 us e → EndsSum us [next] → next.kind ≠ .eof →
      Halts limit us next .finish

end Grammar

/-! ## Small readers that fail -/

/-- The next token, or the end of the input. -/
def Context.upcoming (ctx : Context) : List Token → Token
  | [] => ⟨.eof, "", ctx.stop⟩
  | t :: _ => t

theorem Context.here_eq (ctx : Context) (rest : List Token) :
    ctx.here rest = (ctx.upcoming rest).offset := by
  cases rest <;> rfl

theorem descend_of_le {depth : Nat} (h : maxDepth ≤ depth) (offset : Nat) :
    descend depth offset = .error ⟨.tooDeep, offset⟩ :=
  if_neg (Nat.not_lt.2 h)

theorem descend_eq_error {depth offset : Nat} {why : SyntaxError}
    (h : descend depth offset = .error why) : maxDepth ≤ depth := by
  refine Nat.le_of_not_lt fun hlt => ?_
  rw [descend_of_lt hlt] at h
  contradiction

theorem Context.isLexical_endError (ctx : Context) : ctx.endError.fault.isLexical = false := by
  unfold endError
  cases ctx.opened <;> rfl

/-- An error is lexical exactly if an invalid token stands where an operand should, or what closes
an argument or a group, or the end of the input. -/
theorem Halt.isLexical_error_iff (halt : Halt) (ctx : Context) (next : Token) :
    (halt.error ctx next).fault.isLexical ↔
      (∃ issue, next.kind = .invalid issue) ∧
        (halt = .operand ∨ halt = .closing ∨ halt = .finish) := by
  cases halt with
  | level | call => simp [error, SyntaxFault.isLexical]
  | finish =>
      rw [error]
      cases next.kind <;> simp [SyntaxFault.isLexical]
  | operand | closing =>
      rw [error]
      cases next.kind with
      | eof => simp [ctx.isLexical_endError]
      | _ => simp [SyntaxFault.isLexical]

/-- What does not close stops the reader. -/
theorem close_of_upcoming {ctx : Context} {rest : List Token}
    (h : (ctx.upcoming rest).kind ≠ .rightParen) :
    ctx.close rest = .error (Halt.closing.error ctx (ctx.upcoming rest)) := by
  cases rest with
  | nil => rfl
  | cons t more =>
      have ht : t.kind ≠ .rightParen := h
      rw [Context.close, Context.upcoming, Halt.error]
      cases hkind : t.kind <;> first | rfl | contradiction

theorem close_eq_error {ctx : Context} {rest : List Token} {why : SyntaxError}
    (h : ctx.close rest = .error why) : (ctx.upcoming rest).kind ≠ .rightParen := by
  cases rest with
  | nil => nofun
  | cons t more =>
      intro ht
      replace ht : t.kind = .rightParen := ht
      rw [close_cons ht] at h
      contradiction

/-- Whether the next token extends a phrase depends on nothing behind it. -/
theorem endsSum_upcoming_iff (ctx : Context) (us rest : List Token) :
    Grammar.EndsSum us [ctx.upcoming rest] ↔ Grammar.EndsSum us rest := by
  cases rest with
  | nil => simp [Grammar.EndsSum, Grammar.EndsProduct, Grammar.EndsUnary, Context.upcoming,
      multiplicativeOp?, additiveOp?]
  | cons t more => rfl

namespace Grammar

/-! ## A halt is refused -/

theorem PrimaryHalts.not_minus {limit depth : Nat} {us : List Token} {next : Token} {halt : Halt} :
    PrimaryHalts limit depth us next halt →
    ∀ t ∈ (us ++ [next]).head?, t.kind ≠ .operator .minus
  | .operand hnext, t, ht => by
      cases ht
      intro hminus
      rw [hminus] at hnext
      contradiction
  | .name hname _ _, t, ht => by
      cases ht
      rw [hname]
      nofun
  | .group hopen _, t, ht => by
      cases ht
      rw [hopen]
      nofun
  | .closing hopen _ _ _, t, ht => by
      cases ht
      rw [hopen]
      nofun
  | .call hname _ _ _, t, ht => by
      cases ht
      rw [hname]
      nofun

theorem head?_append_upcoming {ctx : Context} {us rest : List Token} {t : Token} {more : List Token}
    (h : us ++ rest = t :: more) : (us ++ [ctx.upcoming rest]).head? = some t := by
  cases us with
  | nil =>
      rw [List.nil_append] at h
      rw [h]
      rfl
  | cons u us =>
      rw [List.cons_append, List.cons.injEq] at h
      rw [← h.1]
      rfl

theorem primaryAt_nil (ctx : Context) (depth : Nat) :
    primaryAt ctx depth [] = .error ctx.endError := by
  rw [primaryAt, readPrimary.eq_def]
  rfl

theorem unaryAt_eq_primaryAt_of_head {ctx : Context} {depth : Nat} {us rest : List Token}
    (h : ∀ t ∈ (us ++ [ctx.upcoming rest]).head?, t.kind ≠ .operator .minus) :
    unaryAt ctx depth (us ++ rest) = primaryAt ctx depth (us ++ rest) := by
  cases htokens : us ++ rest with
  | nil => rw [unaryAt_nil, primaryAt_nil]
  | cons t more => rw [unaryAt_cons, if_neg (h t (head?_append_upcoming htokens))]

theorem argumentsAt_eq_argumentListAt_of_head {ctx : Context} {depth : Nat} {us rest : List Token}
    (h : ∀ t ∈ (us ++ [ctx.upcoming rest]).head?, t.kind ≠ .rightParen) :
    argumentsAt ctx depth (us ++ rest) = argumentListAt ctx depth (us ++ rest) := by
  cases htokens : us ++ rest with
  | nil => rw [argumentsAt_nil]
  | cons t more => rw [argumentsAt_cons, if_neg (h t (head?_append_upcoming htokens))]

theorem primaryAt_of_not_startsExpression {ctx : Context} {depth : Nat} {rest : List Token}
    (h : (ctx.upcoming rest).kind.startsExpression = false) :
    primaryAt ctx depth rest = .error (Halt.operand.error ctx (ctx.upcoming rest)) := by
  cases rest with
  | nil => exact primaryAt_nil ctx depth
  | cons t more =>
      have ht : t.kind.startsExpression = false := h
      rw [primaryAt_cons]
      rw [Context.upcoming, Halt.error]
      cases hkind : t.kind <;> rw [hkind] at ht <;> first | rfl | contradiction

end Grammar

/-- The context behind some tokens: the innermost parenthesis that they leave open counts. -/
def Context.behind (ctx : Context) (stack : List Nat) (us : List Token) : Context :=
  { ctx with opened := (openParens stack us).head? }

theorem Context.upcoming_opened (ctx : Context) (opened : Option Nat) (rest : List Token) :
    Context.upcoming { ctx with opened } rest = ctx.upcoming rest := by
  cases rest <;> rfl

namespace Grammar

mutual

/-- An expression that halts is refused, whatever follows the token that stops it. -/
theorem ExpressionHalts.expressionAt_append {ctx : Context} {depth inner : Nat}
    {us rest : List Token} {next : Token} {halt : Halt} {stack : List Nat} :
    ExpressionHalts maxDepth inner us next halt → inner = depth + 1 →
    ctx.opened = stack.head? → ctx.upcoming rest = next →
    expressionAt ctx depth (us ++ rest) = .error (halt.error (ctx.behind stack us) next)
  | .level hdepth, hinner, _, hnext => by
      rw [List.nil_append, expressionAt_eq, descend_of_le (by omega), ctx.here_eq, hnext]
      rfl
  | .additive hdepth h, hinner, hstack, hnext => by
      rw [expressionAt_eq, descend_of_lt (by omega), ← hinner]
      exact h.sumAt_append hstack hnext

/-- A sum that halts is refused. -/
theorem AdditiveHalts.sumAt_append {ctx : Context} {depth : Nat} {us rest : List Token}
    {next : Token} {halt : Halt} {stack : List Nat} :
    AdditiveHalts maxDepth depth us next halt → ctx.opened = stack.head? →
    ctx.upcoming rest = next →
    sumAt ctx depth (us ++ rest) = .error (halt.error (ctx.behind stack us) next)
  | .first h, hstack, hnext => by
      rw [sumAt, h.productAt_append hstack hnext]
      rfl
  | .level (k := k) hleft hkind hadd hdepth, _, _ => by
      have hle : maxDepth ≤ depth + k := Nat.le_of_lt_succ hdepth
      rw [List.append_assoc, List.singleton_append,
        hleft.sumAt_append (endsProduct_cons hkind hadd _ _), sumTailAt_cons,
        additiveOp?_eq_some_iff.2 ⟨hkind, hadd⟩]
      show (descend _ _ >>= _) = _
      rw [descend_of_le hle]
      rfl
  | .next (k := k) hleft hkind hadd hdepth hright, hstack, hnext => by
      have hlt : depth + k < maxDepth := hdepth
      rw [List.append_assoc, List.cons_append,
        hleft.sumAt_append (endsProduct_cons hkind hadd _ _), sumTailAt_cons,
        additiveOp?_eq_some_iff.2 ⟨hkind, hadd⟩]
      show (descend _ _ >>= _) = _
      rw [descend_of_lt hlt]
      show (productAt _ _ _ >>= _) = _
      rw [Nat.add_assoc, hright.productAt_append hstack hnext, Context.behind, Context.behind,
        openParens_append, hleft.openParens_eq, openParens_cons, Token.nest_of_operator hkind]
      rfl

/-- A product that halts is refused. -/
theorem MultiplicativeHalts.productAt_append {ctx : Context} {depth : Nat} {us rest : List Token}
    {next : Token} {halt : Halt} {stack : List Nat} :
    MultiplicativeHalts maxDepth depth us next halt → ctx.opened = stack.head? →
    ctx.upcoming rest = next →
    productAt ctx depth (us ++ rest) = .error (halt.error (ctx.behind stack us) next)
  | .first h, hstack, hnext => by
      rw [productAt_eq, h.unaryAt_append hstack hnext]
      rfl
  | .level (k := k) hleft hkind hmul hdepth, _, _ => by
      have hle : maxDepth ≤ depth + k := Nat.le_of_lt_succ hdepth
      rw [List.append_assoc, List.singleton_append,
        hleft.productAt_append (endsUnary_cons hkind _ _), productTailAt_cons,
        multiplicativeOp?_eq_some_iff.2 ⟨hkind, hmul⟩]
      show (descend _ _ >>= _) = _
      rw [descend_of_le hle]
      rfl
  | .next (k := k) hleft hkind hmul hdepth hright, hstack, hnext => by
      have hlt : depth + k < maxDepth := hdepth
      rw [List.append_assoc, List.cons_append,
        hleft.productAt_append (endsUnary_cons hkind _ _), productTailAt_cons,
        multiplicativeOp?_eq_some_iff.2 ⟨hkind, hmul⟩]
      show (descend _ _ >>= _) = _
      rw [descend_of_lt hlt]
      show (unaryAt _ _ _ >>= _) = _
      rw [Nat.add_assoc, hright.unaryAt_append hstack hnext, Context.behind, Context.behind,
        openParens_append, hleft.openParens_eq, openParens_cons, Token.nest_of_operator hkind]
      rfl

/-- An operand of a product that halts is refused. -/
theorem UnaryHalts.unaryAt_append {ctx : Context} {depth : Nat} {us rest : List Token}
    {next : Token} {halt : Halt} {stack : List Nat} :
    UnaryHalts maxDepth depth us next halt → ctx.opened = stack.head? →
    ctx.upcoming rest = next →
    unaryAt ctx depth (us ++ rest) = .error (halt.error (ctx.behind stack us) next)
  | .primary h, hstack, hnext => by
      have hhead := h.not_minus
      rw [← hnext] at hhead
      rw [unaryAt_eq_primaryAt_of_head hhead]
      exact h.primaryAt_append hstack hnext
  | .level hkind hdepth, _, _ => by
      rw [List.singleton_append, unaryAt_cons, if_pos hkind,
        descend_of_le (Nat.le_of_lt_succ hdepth)]
      rfl
  | .minus hkind hdepth h, hstack, hnext => by
      rw [List.cons_append, unaryAt_cons, if_pos hkind, descend_of_lt hdepth]
      show (unaryAt _ _ _ >>= _) = _
      rw [h.unaryAt_append hstack hnext, Context.behind, Context.behind, openParens_cons,
        Token.nest_of_operator hkind]
      rfl

/-- A primary that halts is refused. -/
theorem PrimaryHalts.primaryAt_append {ctx : Context} {depth : Nat} {us rest : List Token}
    {next : Token} {halt : Halt} {stack : List Nat} :
    PrimaryHalts maxDepth depth us next halt → ctx.opened = stack.head? →
    ctx.upcoming rest = next →
    primaryAt ctx depth (us ++ rest) = .error (halt.error (ctx.behind stack us) next)
  | .operand hstart, hstack, hnext => by
      rw [← hnext] at hstart ⊢
      rw [List.nil_append, primaryAt_of_not_startsExpression hstart, Context.behind,
        openParens_nil, ← hstack]
  | .name hname htext hparen, _, hnext => by
      rw [← hnext] at hparen
      rw [List.singleton_append, primaryAt_cons, hname]
      cases rest with
      | nil => exact if_neg htext
      | cons t inside =>
          have ht : t.kind ≠ .leftParen := hparen
          show (if t.kind = .leftParen then _ else _) = _
          rw [if_neg ht]
          exact if_neg htext
  | @PrimaryHalts.group _ _ opening _ _ _ hopen h, _, hnext => by
      let inner : Context := { ctx with opened := some opening.offset }
      have hinner : inner.upcoming rest = _ := (ctx.upcoming_opened _ rest).trans hnext
      rw [List.cons_append, primaryAt_cons, hopen]
      have hopened : inner.opened = (opening.offset :: stack).head? := rfl
      show (expressionAt inner _ _ >>= _) = _
      rw [h.expressionAt_append rfl hopened hinner, Context.behind, Context.behind,
        openParens_cons, Token.nest_of_leftParen hopen]
      rfl
  | @PrimaryHalts.closing _ _ opening _ _ _ hopen h hends hclose, _, hnext => by
      let inner : Context := { ctx with opened := some opening.offset }
      have hinner : inner.upcoming rest = _ := (ctx.upcoming_opened _ rest).trans hnext
      rw [← hinner] at hends hclose ⊢
      rw [List.cons_append, primaryAt_cons, hopen]
      show (expressionAt inner _ _ >>= _) = _
      rw [h.expressionAt_append rfl ((endsSum_upcoming_iff _ _ _).1 hends)]
      show (inner.close rest >>= _) = _
      rw [close_of_upcoming hclose, Context.behind, openParens_cons,
        Token.nest_of_leftParen hopen, h.openParens_eq]
      rfl
  | @PrimaryHalts.call _ _ _ opening _ _ _ hname hopen hhead h, _, hnext => by
      let inner : Context := { ctx with opened := some opening.offset }
      have hinner : inner.upcoming rest = _ := (ctx.upcoming_opened _ rest).trans hnext
      have hopened : inner.opened = (opening.offset :: stack).head? := rfl
      rw [← hinner] at hhead
      rw [List.cons_append, List.cons_append, primaryAt_cons, hname]
      show (if _ then _ else _) = _
      rw [if_pos hopen]
      show (argumentsAt inner _ _ >>= _) = _
      rw [argumentsAt_eq_argumentListAt_of_head hhead,
        h.argumentListAt_append rfl hopened hinner, Context.behind,
        Context.behind, openParens_cons, Token.nest_of_identifier hname, openParens_cons,
        Token.nest_of_leftParen hopen]
      rfl

/-- Arguments that halt are refused. -/
theorem ArgumentsHalts.argumentListAt_append {ctx : Context} {depth inner : Nat}
    {us rest : List Token} {next : Token} {halt : Halt} {stack : List Nat} :
    ArgumentsHalts maxDepth inner us next halt → inner = depth + 1 →
    ctx.opened = stack.head? → ctx.upcoming rest = next →
    argumentListAt ctx depth (us ++ rest) = .error (halt.error (ctx.behind stack us) next)
  | .last h, hinner, hstack, hnext => by
      rw [argumentListAt_eq, h.expressionAt_append hinner hstack hnext]
      rfl
  | .closing h hends hcomma hclose, hinner, hstack, hnext => by
      rw [← hnext] at hends hcomma hclose ⊢
      rw [argumentListAt_eq, h.expressionAt_append hinner ((endsSum_upcoming_iff _ _ _).1 hends)]
      rw [Context.behind, h.openParens_eq, ← hstack]
      cases rest with
      | nil => rfl
      | cons t more =>
          have ht : t.kind ≠ .comma := hcomma
          show (if t.kind = .comma then _ else _) = _
          rw [if_neg ht, close_of_upcoming hclose]
          rfl
  | .more h hcomma hargs, hinner, hstack, hnext => by
      rw [List.append_assoc, List.cons_append, argumentListAt_eq,
        h.expressionAt_append hinner (endsSum_cons (.inl hcomma) _ _)]
      show (if _ then _ else _) = _
      rw [if_pos hcomma]
      show (argumentListAt _ _ _ >>= _) = _
      rw [hargs.argumentListAt_append hinner hstack hnext, Context.behind, Context.behind,
        openParens_append, h.openParens_eq, openParens_cons, Token.nest_of_comma hcomma]
      rfl

end

end Grammar

end ToneGraph
