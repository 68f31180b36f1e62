import ToneGraph.Expr
import ToneGraph.Expr.SyntaxError
/-!
# Reading expressions from tokens

The grammar, loosest binding first:

```text
expression     := additive
additive       := multiplicative (("+" | "-") multiplicative)*
multiplicative := unary (("*" | "/") unary)*
unary          := "-" unary | primary
primary        := NUMBER | "(" expression ")" | NAME "(" arguments? ")" | "time"
arguments      := expression ("," expression)*
```

Only the shape is read here; whether a name exists is for `ToneGraph.Checked` to say.

Every reader takes the tokens before the end of input and gives back the tokens it left, with a
proof that they are fewer. The depth is counted along the text: an expression is one deeper than
what holds it, the `k`-th further operand of a chain is `k` deeper than the first, and the operand
of a minus is one deeper than the minus. No depth exceeds `maxDepth`. A chain is joined from the
left, which pushes its first operands down in the tree without counting them again, so a tree may be
higher than `maxDepth`.

## Main definitions

* `readExpression`: the recursive readers.
* `Expr.parse`: exactly one expression from a token list.
-/

namespace ToneGraph

/-- Nothing may be nested deeper than this. -/
def maxDepth : Nat := 256

/-- Names that stand for a value without being called. -/
def reservedNames : List String := ["time"]

/-- An expression read from the front of `tokens`, and what is left of them. -/
structure Reading (tokens : List Token) where
  expr : Expr
  rest : List Token
  shorter : rest.length < tokens.length

/-- Expressions read from the front of `tokens`, and what is left of them. -/
structure Readings (tokens : List Token) where
  exprs : List Expr
  rest : List Token
  shorter : rest.length < tokens.length

/-- A reading that may have left all tokens: the rest of a chain. -/
structure Chain (tokens : List Token) where
  expr : Expr
  rest : List Token
  notLonger : rest.length ≤ tokens.length

/-- What stays the same while a part of an expression is read: where the input ends, and the
innermost parenthesis that is open. -/
structure Context where
  stop : Nat
  opened : Option Nat

namespace Context

/-- The error for an input that ends too early: the innermost open parenthesis is to blame. -/
def endError (ctx : Context) : SyntaxError :=
  match ctx.opened with
  | some opened => ⟨.unmatchedOpen, opened⟩
  | none => ⟨.unexpectedEnd, ctx.stop⟩

/-- Where the next token stands, or where the input ends. -/
def here (ctx : Context) : List Token → Nat
  | [] => ctx.stop
  | t :: _ => t.offset

/-- Takes the parenthesis that closes the innermost open one. -/
def close (ctx : Context) (tokens : List Token) :
    Except SyntaxError { rest : List Token // rest.length < tokens.length } :=
  match tokens with
  | [] => .error ctx.endError
  | t :: rest =>
    match t.kind with
    | .rightParen => .ok ⟨rest, Nat.lt_succ_self _⟩
    | .eof => .error ctx.endError
    | .invalid issue => .error ⟨.lexical issue, t.offset⟩
    | kind => .error ⟨.expectedSeparator kind, t.offset⟩

end Context

/-- The additive operator of a token. -/
def additiveOp? (t : Token) : Option BinaryOp :=
  match t.kind with
  | .operator .plus => some .add
  | .operator .minus => some .sub
  | _ => none

/-- The multiplicative operator of a token. -/
def multiplicativeOp? (t : Token) : Option BinaryOp :=
  match t.kind with
  | .operator .star => some .mul
  | .operator .slash => some .div
  | _ => none

/-- One step deeper, unless that is too deep. -/
def descend (depth offset : Nat) : Except SyntaxError Nat :=
  if depth < maxDepth then .ok (depth + 1) else .error ⟨.tooDeep, offset⟩

mutual

/-- An expression inside something of the given depth. -/
def readExpression (ctx : Context) (depth : Nat) (tokens : List Token) :
    Except SyntaxError (Reading tokens) := do
  let depth ← descend depth (ctx.here tokens)
  let ⟨first, behind, shorter⟩ ← readProduct ctx depth tokens
  let chain ← readSumTail ctx depth first behind
  return ⟨chain.expr, chain.rest, Nat.lt_of_le_of_lt chain.notLonger shorter⟩
termination_by (tokens.length, 4)

/-- The further operands of a sum whose first operands are read. -/
def readSumTail (ctx : Context) (depth : Nat) (left : Expr) (tokens : List Token) :
    Except SyntaxError (Chain tokens) :=
  match tokens with
  | [] => .ok ⟨left, [], Nat.le_refl _⟩
  | t :: rest =>
    match additiveOp? t with
    | none => .ok ⟨left, t :: rest, Nat.le_refl _⟩
    | some op => do
      let depth ← descend depth t.offset
      let ⟨right, behind, _⟩ ← readProduct ctx depth rest
      let chain ← readSumTail ctx depth (.binary op left right t.offset) behind
      return ⟨chain.expr, chain.rest, by
        have := chain.notLonger
        simp only [List.length_cons]
        omega⟩
termination_by (tokens.length, 0)

/-- A product: operands of the tightest binary operators. -/
def readProduct (ctx : Context) (depth : Nat) (tokens : List Token) :
    Except SyntaxError (Reading tokens) := do
  let ⟨first, behind, shorter⟩ ← readUnary ctx depth tokens
  let chain ← readProductTail ctx depth first behind
  return ⟨chain.expr, chain.rest, Nat.lt_of_le_of_lt chain.notLonger shorter⟩
termination_by (tokens.length, 3)

/-- The further operands of a product whose first operands are read. -/
def readProductTail (ctx : Context) (depth : Nat) (left : Expr) (tokens : List Token) :
    Except SyntaxError (Chain tokens) :=
  match tokens with
  | [] => .ok ⟨left, [], Nat.le_refl _⟩
  | t :: rest =>
    match multiplicativeOp? t with
    | none => .ok ⟨left, t :: rest, Nat.le_refl _⟩
    | some op => do
      let depth ← descend depth t.offset
      let ⟨right, behind, _⟩ ← readUnary ctx depth rest
      let chain ← readProductTail ctx depth (.binary op left right t.offset) behind
      return ⟨chain.expr, chain.rest, by
        have := chain.notLonger
        simp only [List.length_cons]
        omega⟩
termination_by (tokens.length, 0)

/-- Minus signs and what they apply to. -/
def readUnary (ctx : Context) (depth : Nat) (tokens : List Token) :
    Except SyntaxError (Reading tokens) :=
  match tokens with
  | [] => .error ctx.endError
  | t :: rest =>
    if t.kind = .operator .minus then do
      let depth ← descend depth t.offset
      let operand ← readUnary ctx depth rest
      return ⟨.negate operand.expr t.offset, operand.rest, by
        have := operand.shorter
        simp only [List.length_cons]
        omega⟩
    else readPrimary ctx depth (t :: rest)
termination_by (tokens.length, 2)

/-- A number, a group, a call or a reserved name. -/
def readPrimary (ctx : Context) (depth : Nat) (tokens : List Token) :
    Except SyntaxError (Reading tokens) :=
  match tokens with
  | [] => .error ctx.endError
  | t :: rest =>
    match t.kind with
    | .number value => .ok ⟨.number value t.offset, rest, Nat.lt_succ_self _⟩
    | .leftParen => do
      let inner := { ctx with opened := some t.offset }
      let ⟨expr, behind, _⟩ ← readExpression inner depth rest
      let ⟨after, _⟩ ← inner.close behind
      return ⟨expr, after, by simp only [List.length_cons]; omega⟩
    | .identifier =>
      match rest with
      | [] =>
        if reservedNames.contains t.text then
          .ok ⟨.identifier t.text t.offset, [], Nat.lt_succ_self _⟩
        else .error ⟨.expectedCall t.text, t.offset⟩
      | next :: inside =>
        if next.kind = .leftParen then do
          let args ← readArguments { ctx with opened := some next.offset } depth inside
          return ⟨.call t.text args.exprs t.offset, args.rest, by
            have := args.shorter
            simp only [List.length_cons]
            omega⟩
        else if reservedNames.contains t.text then
          .ok ⟨.identifier t.text t.offset, next :: inside, Nat.lt_succ_self _⟩
        else .error ⟨.expectedCall t.text, t.offset⟩
    | .string _ => .error ⟨.stringLiteral, t.offset⟩
    | .invalid issue => .error ⟨.lexical issue, t.offset⟩
    | .eof => .error ctx.endError
    | kind => .error ⟨.unexpected kind, t.offset⟩
termination_by (tokens.length, 1)

/-- The arguments of a call, from behind its opening parenthesis to behind its closing one. -/
def readArguments (ctx : Context) (depth : Nat) (tokens : List Token) :
    Except SyntaxError (Readings tokens) :=
  match tokens with
  | [] => readArgumentList ctx depth []
  | t :: rest =>
    if t.kind = .rightParen then .ok ⟨[], rest, Nat.lt_succ_self _⟩
    else readArgumentList ctx depth (t :: rest)
termination_by (tokens.length, 6)

/-- One argument and those after it. -/
def readArgumentList (ctx : Context) (depth : Nat) (tokens : List Token) :
    Except SyntaxError (Readings tokens) := do
  let ⟨first, behind, shorter⟩ ← readExpression ctx depth tokens
  match behind, shorter with
  | [], _ => .error ctx.endError
  | t :: more, shorter =>
    if t.kind = .comma then
      have fewer : more.length < tokens.length := Nat.lt_of_succ_lt shorter
      let others ← readArgumentList ctx depth more
      return ⟨first :: others.exprs, others.rest, Nat.lt_trans others.shorter fewer⟩
    else
      let ⟨after, _⟩ ← ctx.close (t :: more)
      return ⟨[first], after, by omega⟩
termination_by (tokens.length, 5)

end

/-- Where the input of a token list ends: at its first end of input, else behind its last token. -/
def endOffset (tokens : List Token) : Nat :=
  match tokens.find? (·.kind = .eof) with
  | some t => t.offset
  | none =>
    match tokens.getLast? with
    | some t => t.offset + t.text.utf8ByteSize
    | none => 0

/-- Reads exactly one expression. Tokens behind the first end of input do not count. -/
def Expr.parse (tokens : List Token) : Except SyntaxError Expr :=
  let ctx : Context := ⟨endOffset tokens, none⟩
  match tokens.takeWhile (·.kind ≠ .eof) with
  | [] => .error ⟨.emptyInput, 0⟩
  | t :: rest => do
    let reading ← readExpression ctx 0 (t :: rest)
    match reading.rest with
    | [] => .ok reading.expr
    | t :: _ =>
      match t.kind with
      | .invalid issue => .error ⟨.lexical issue, t.offset⟩
      | .rightParen => .error ⟨.unmatchedClose, t.offset⟩
      | kind => .error ⟨.trailing kind, t.offset⟩

end ToneGraph
