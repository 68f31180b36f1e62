import ToneGraph.Expr
import ToneGraph.Token
/-!
# The grammar of expressions

The grammar as rules over whole token lists, with no reader in sight.  A rule says which tokens
make up a phrase and which tree the phrase means; nothing says where to start or what to try first.

Every phrase has a depth, and a limit that no depth may exceed is a parameter of all rules:

* an expression inside parentheses, or an argument of a call, is one deeper than the primary that
  holds it;
* the `k`-th further operand of a chain is `k` deeper than the first operand of the chain;
* the operand of a minus sign is one deeper than the minus sign.

## Main definitions

* `Grammar.Expression` and the rules below it.
* `Expr.offsets`: the offsets of a tree in the order of the text.

## Main statements

* `Grammar.Expression.offsets`: the offsets of a derived tree are those of the tokens that bring
  in nodes, each once and in order.
-/

namespace ToneGraph

namespace BinaryOp

/-- The operator token that a binary operator is written as. -/
def operator : BinaryOp → Operator
  | add => .plus
  | sub => .minus
  | mul => .star
  | div => .slash

/-- Whether the operator joins the operands of a sum. -/
def isAdditive : BinaryOp → Bool
  | add | sub => true
  | mul | div => false

/-- Whether the operator joins the operands of a product. -/
def isMultiplicative (op : BinaryOp) : Bool :=
  !op.isAdditive

end BinaryOp

/-! ## The rules -/

namespace Grammar

mutual

/-- `expression := additive` -/
inductive Expression (limit : Nat) : (depth : Nat) → List Token → Expr → Prop
  | additive {depth k us e} : depth ≤ limit → Additive limit depth k us e →
      Expression limit depth us e

/-- `additive := multiplicative (("+" | "-") multiplicative)*`, with `k` further operands. -/
inductive Additive (limit : Nat) : (depth k : Nat) → List Token → Expr → Prop
  | first {depth j us e} : Multiplicative limit depth j us e → Additive limit depth 0 us e
  | next {depth k j us t vs op left right} : Additive limit depth k us left →
      t.kind = .operator (BinaryOp.operator op) → op.isAdditive → depth + (k + 1) ≤ limit →
      Multiplicative limit (depth + (k + 1)) j vs right →
      Additive limit depth (k + 1) (us ++ t :: vs) (.binary op left right t.offset)

/-- `multiplicative := unary (("*" | "/") unary)*`, with `k` further operands. -/
inductive Multiplicative (limit : Nat) : (depth k : Nat) → List Token → Expr → Prop
  | first {depth us e} : Unary limit depth us e → Multiplicative limit depth 0 us e
  | next {depth k us t vs op left right} : Multiplicative limit depth k us left →
      t.kind = .operator (BinaryOp.operator op) → op.isMultiplicative →
      depth + (k + 1) ≤ limit → Unary limit (depth + (k + 1)) vs right →
      Multiplicative limit depth (k + 1) (us ++ t :: vs) (.binary op left right t.offset)

/-- `unary := "-" unary | primary` -/
inductive Unary (limit : Nat) : (depth : Nat) → List Token → Expr → Prop
  | primary {depth us e} : Primary limit depth us e → Unary limit depth us e
  | minus {depth t us e} : t.kind = .operator .minus → depth + 1 ≤ limit →
      Unary limit (depth + 1) us e → Unary limit depth (t :: us) (.negate e t.offset)

/-- `primary := NUMBER | "(" expression ")" | NAME "(" arguments? ")" | "time"` -/
inductive Primary (limit : Nat) : (depth : Nat) → List Token → Expr → Prop
  | number {depth t value} : t.kind = .number value →
      Primary limit depth [t] (.number value t.offset)
  | group {depth opening us closing e} : opening.kind = .leftParen →
      Expression limit (depth + 1) us e → closing.kind = .rightParen →
      Primary limit depth (opening :: (us ++ [closing])) e
  | callNone {depth name opening closing} : name.kind = .identifier →
      opening.kind = .leftParen → closing.kind = .rightParen →
      Primary limit depth [name, opening, closing] (.call name.text [] name.offset)
  | call {depth name opening us closing args} : name.kind = .identifier →
      opening.kind = .leftParen → Arguments limit (depth + 1) us args →
      closing.kind = .rightParen →
      Primary limit depth (name :: opening :: (us ++ [closing])) (.call name.text args name.offset)
  | time {depth t} : t.kind = .identifier → t.text = "time" →
      Primary limit depth [t] (.identifier t.text t.offset)

/-- `arguments := expression ("," expression)*` -/
inductive Arguments (limit : Nat) : (depth : Nat) → List Token → List Expr → Prop
  | last {depth us e} : Expression limit depth us e → Arguments limit depth us [e]
  | more {depth us comma vs e args} : Expression limit depth us e → comma.kind = .comma →
      Arguments limit depth vs args → Arguments limit depth (us ++ comma :: vs) (e :: args)

end

end Grammar

/-! ## First tokens -/

/-- Whether a primary may begin with such a token. -/
def TokenKind.startsPrimary : TokenKind → Bool
  | .number _ | .identifier | .leftParen => true
  | _ => false

/-- Whether an expression may begin with such a token. -/
def TokenKind.startsExpression (kind : TokenKind) : Bool :=
  kind.startsPrimary || kind = .operator .minus

namespace Grammar

variable {limit : Nat}

theorem Primary.exists_cons {depth : Nat} {us : List Token} {e : Expr} :
    Primary limit depth us e → ∃ t rest, us = t :: rest ∧ t.kind.startsPrimary
  | .number hkind => ⟨_, _, rfl, by rw [hkind]; rfl⟩
  | .group hopen _ _ => ⟨_, _, rfl, by rw [hopen]; rfl⟩
  | .callNone hname _ _ => ⟨_, _, rfl, by rw [hname]; rfl⟩
  | .call hname _ _ _ => ⟨_, _, rfl, by rw [hname]; rfl⟩
  | .time hkind _ => ⟨_, _, rfl, by rw [hkind]; rfl⟩

theorem Unary.exists_cons {depth : Nat} {us : List Token} {e : Expr} :
    Unary limit depth us e → ∃ t rest, us = t :: rest ∧ t.kind.startsExpression
  | .primary h => by
      obtain ⟨t, rest, rfl, ht⟩ := h.exists_cons
      exact ⟨t, rest, rfl, by rw [TokenKind.startsExpression, ht, Bool.true_or]⟩
  | .minus hkind _ _ => ⟨_, _, rfl, by rw [hkind]; rfl⟩

theorem Multiplicative.exists_cons {depth k : Nat} {us : List Token} {e : Expr} :
    Multiplicative limit depth k us e → ∃ t rest, us = t :: rest ∧ t.kind.startsExpression
  | .first h => h.exists_cons
  | .next hleft _ _ _ _ => by
      obtain ⟨first, rest, rfl, hfirst⟩ := hleft.exists_cons
      exact ⟨first, _, rfl, hfirst⟩

theorem Additive.exists_cons {depth k : Nat} {us : List Token} {e : Expr} :
    Additive limit depth k us e → ∃ t rest, us = t :: rest ∧ t.kind.startsExpression
  | .first h => h.exists_cons
  | .next hleft _ _ _ _ => by
      obtain ⟨first, rest, rfl, hfirst⟩ := hleft.exists_cons
      exact ⟨first, _, rfl, hfirst⟩

/-- No expression is empty, and its first token can start one. -/
theorem Expression.exists_cons {depth : Nat} {us : List Token} {e : Expr} :
    Expression limit depth us e → ∃ t rest, us = t :: rest ∧ t.kind.startsExpression
  | .additive _ h => h.exists_cons

theorem Arguments.exists_cons {depth : Nat} {us : List Token} {args : List Expr} :
    Arguments limit depth us args → ∃ t rest, us = t :: rest ∧ t.kind.startsExpression
  | .last h => h.exists_cons
  | .more h _ _ => by
      obtain ⟨first, rest, rfl, hfirst⟩ := h.exists_cons
      exact ⟨first, _, rfl, hfirst⟩

theorem Unary.ne_nil {depth : Nat} {us : List Token} {e : Expr} (h : Unary limit depth us e) :
    us ≠ [] := by
  obtain ⟨t, rest, rfl, -⟩ := h.exists_cons
  exact List.cons_ne_nil t rest

theorem Multiplicative.ne_nil {depth k : Nat} {us : List Token} {e : Expr}
    (h : Multiplicative limit depth k us e) : us ≠ [] := by
  obtain ⟨t, rest, rfl, -⟩ := h.exists_cons
  exact List.cons_ne_nil t rest

end Grammar

/-! ## Offsets in the order of the text -/

namespace Expr

mutual

/-- The offsets of all nodes, in the order in which their tokens stand in the text. -/
def offsets : Expr → List Nat
  | number _ offset => [offset]
  | identifier _ offset => [offset]
  | call _ args offset => offset :: offsetsAll args
  | binary _ left right offset => offsets left ++ offset :: offsets right
  | negate operand offset => offset :: offsets operand

/-- The offsets of several expressions, one after the other. -/
def offsetsAll : List Expr → List Nat
  | [] => []
  | e :: rest => offsets e ++ offsetsAll rest

end

end Expr

/-- Whether a token brings in a node: numbers, names and operators do. -/
def TokenKind.bringsNode : TokenKind → Bool
  | .number _ | .identifier | .operator _ => true
  | _ => false

/-- The offsets of the tokens that bring in nodes. -/
def nodeOffsets (tokens : List Token) : List Nat :=
  (tokens.filter (·.kind.bringsNode)).map Token.offset

@[simp] theorem nodeOffsets_nil : nodeOffsets [] = [] := rfl

@[simp] theorem nodeOffsets_append (us vs : List Token) :
    nodeOffsets (us ++ vs) = nodeOffsets us ++ nodeOffsets vs := by
  simp [nodeOffsets]

theorem nodeOffsets_cons_of_bringsNode {t : Token} (ht : t.kind.bringsNode = true)
    (us : List Token) : nodeOffsets (t :: us) = t.offset :: nodeOffsets us := by
  simp [nodeOffsets, ht]

theorem nodeOffsets_cons_of_not_bringsNode {t : Token} (ht : t.kind.bringsNode = false)
    (us : List Token) : nodeOffsets (t :: us) = nodeOffsets us := by
  simp [nodeOffsets, ht]

/-- A binary node stands between its operands, in the tree as in the text. -/
private theorem offsets_binary {op : BinaryOp} {symbol : Operator} {left right : Expr}
    {us vs : List Token} {t : Token} (hleft : left.offsets = nodeOffsets us)
    (hkind : t.kind = .operator symbol) (hright : right.offsets = nodeOffsets vs) :
    (Expr.binary op left right t.offset).offsets = nodeOffsets (us ++ t :: vs) := by
  have ht : t.kind.bringsNode = true := by rw [hkind]; rfl
  rw [Expr.offsets, hleft, hright, nodeOffsets_append, nodeOffsets_cons_of_bringsNode ht]

namespace Grammar

variable {limit : Nat}

mutual

/-- Reading the offsets off a derived tree gives those of its numbers, names and operators. -/
theorem Expression.offsets {depth : Nat} {us : List Token} {e : Expr} :
    Expression limit depth us e → e.offsets = nodeOffsets us
  | .additive _ h => h.offsets

theorem Additive.offsets {depth k : Nat} {us : List Token} {e : Expr} :
    Additive limit depth k us e → e.offsets = nodeOffsets us
  | .first h => h.offsets
  | .next hleft hkind _ _ hright => offsets_binary hleft.offsets hkind hright.offsets

theorem Multiplicative.offsets {depth k : Nat} {us : List Token} {e : Expr} :
    Multiplicative limit depth k us e → e.offsets = nodeOffsets us
  | .first h => h.offsets
  | .next hleft hkind _ _ hright => offsets_binary hleft.offsets hkind hright.offsets

theorem Unary.offsets {depth : Nat} {us : List Token} {e : Expr} :
    Unary limit depth us e → e.offsets = nodeOffsets us
  | .primary h => h.offsets
  | .minus hkind _ hoperand => by
      rw [Expr.offsets, hoperand.offsets, nodeOffsets_cons_of_bringsNode (by rw [hkind]; rfl)]

theorem Primary.offsets {depth : Nat} {us : List Token} {e : Expr} :
    Primary limit depth us e → e.offsets = nodeOffsets us
  | .number hkind => by
      rw [Expr.offsets, nodeOffsets_cons_of_bringsNode (by rw [hkind]; rfl), nodeOffsets_nil]
  | .group hopen hinner hclose => by
      rw [hinner.offsets, nodeOffsets_cons_of_not_bringsNode (by rw [hopen]; rfl),
        nodeOffsets_append, nodeOffsets_cons_of_not_bringsNode (by rw [hclose]; rfl),
        nodeOffsets_nil, List.append_nil]
  | .callNone hname hopen hclose => by
      rw [Expr.offsets, Expr.offsetsAll, nodeOffsets_cons_of_bringsNode (by rw [hname]; rfl),
        nodeOffsets_cons_of_not_bringsNode (by rw [hopen]; rfl),
        nodeOffsets_cons_of_not_bringsNode (by rw [hclose]; rfl), nodeOffsets_nil]
  | .call hname hopen hargs hclose => by
      rw [Expr.offsets, hargs.offsets, nodeOffsets_cons_of_bringsNode (by rw [hname]; rfl),
        nodeOffsets_cons_of_not_bringsNode (by rw [hopen]; rfl), nodeOffsets_append,
        nodeOffsets_cons_of_not_bringsNode (by rw [hclose]; rfl), nodeOffsets_nil,
        List.append_nil]
  | .time hkind _ => by
      rw [Expr.offsets, nodeOffsets_cons_of_bringsNode (by rw [hkind]; rfl), nodeOffsets_nil]

theorem Arguments.offsets {depth : Nat} {us : List Token} {args : List Expr} :
    Arguments limit depth us args → Expr.offsetsAll args = nodeOffsets us
  | .last h => by
      rw [Expr.offsetsAll, Expr.offsetsAll, h.offsets, List.append_nil]
  | .more h hcomma hargs => by
      rw [Expr.offsetsAll, h.offsets, hargs.offsets, nodeOffsets_append,
        nodeOffsets_cons_of_not_bringsNode (by rw [hcomma]; rfl)]

end

end Grammar

end ToneGraph
