import ToneGraph.Expr.Parse
import ToneGraph.Proofs.Except
/-!
# Readers without their bounds

Every reader of `ToneGraph.Expr.Parse` carries a proof that it leaves fewer tokens than it was
given, which is what makes the recursion end.  Statements about what is read have no use for that
proof.  Here each reader is seen as a function to an expression and the tokens behind it, and one
equation for each says what it does; no proof beyond this module opens a reader.

The equations keep every error, so they serve statements about failing inputs as well.
-/

namespace ToneGraph

/-! ## What is read and what is left -/

/-- What was read and what was left. -/
def Reading.pair {tokens : List Token} (r : Reading tokens) : Expr × List Token :=
  (r.expr, r.rest)

/-- What was read and what was left. -/
def Readings.pair {tokens : List Token} (r : Readings tokens) : List Expr × List Token :=
  (r.exprs, r.rest)

/-- What was read and what was left. -/
def Chain.pair {tokens : List Token} (r : Chain tokens) : Expr × List Token :=
  (r.expr, r.rest)

section

variable (ctx : Context) (depth : Nat)

def expressionAt (tokens : List Token) : Except SyntaxError (Expr × List Token) :=
  Reading.pair <$> readExpression ctx depth tokens

def sumTailAt (left : Expr) (tokens : List Token) : Except SyntaxError (Expr × List Token) :=
  Chain.pair <$> readSumTail ctx depth left tokens

def productAt (tokens : List Token) : Except SyntaxError (Expr × List Token) :=
  Reading.pair <$> readProduct ctx depth tokens

def productTailAt (left : Expr) (tokens : List Token) : Except SyntaxError (Expr × List Token) :=
  Chain.pair <$> readProductTail ctx depth left tokens

def unaryAt (tokens : List Token) : Except SyntaxError (Expr × List Token) :=
  Reading.pair <$> readUnary ctx depth tokens

def primaryAt (tokens : List Token) : Except SyntaxError (Expr × List Token) :=
  Reading.pair <$> readPrimary ctx depth tokens

def argumentsAt (tokens : List Token) : Except SyntaxError (List Expr × List Token) :=
  Readings.pair <$> readArguments ctx depth tokens

def argumentListAt (tokens : List Token) : Except SyntaxError (List Expr × List Token) :=
  Readings.pair <$> readArgumentList ctx depth tokens

/-- A sum at a depth that is known to be within the limit. -/
def sumAt (tokens : List Token) : Except SyntaxError (Expr × List Token) := do
  let (first, behind) ← productAt ctx depth tokens
  sumTailAt ctx depth first behind

/-! ## One equation for each reader -/

theorem expressionAt_eq (tokens : List Token) :
    expressionAt ctx depth tokens = (do
      let inner ← descend depth (ctx.here tokens)
      sumAt ctx inner tokens) := by
  simp only [expressionAt, readExpression, map_bind, sumAt, productAt, bind_map_left,
    bind_pure_comp, Functor.map_map, Reading.pair]
  rfl

@[simp] theorem sumTailAt_nil (left : Expr) : sumTailAt ctx depth left [] = .ok (left, []) := by
  rw [sumTailAt, readSumTail]
  rfl

theorem sumTailAt_cons (left : Expr) (t : Token) (rest : List Token) :
    sumTailAt ctx depth left (t :: rest) =
      match additiveOp? t with
      | none => .ok (left, t :: rest)
      | some op => (do
        let inner ← descend depth t.offset
        let (right, behind) ← productAt ctx inner rest
        sumTailAt ctx inner (.binary op left right t.offset) behind) := by
  rw [sumTailAt, readSumTail]
  cases additiveOp? t with
  | none => rfl
  | some op =>
      simp only [map_bind, productAt, bind_map_left, bind_pure_comp, Reading.pair, Functor.map_map]
      rfl

theorem productAt_eq (tokens : List Token) :
    productAt ctx depth tokens = (do
      let (first, behind) ← unaryAt ctx depth tokens
      productTailAt ctx depth first behind) := by
  simp only [productAt, readProduct, map_bind, unaryAt, bind_map_left, bind_pure_comp,
    Functor.map_map, Reading.pair]
  rfl

@[simp] theorem productTailAt_nil (left : Expr) :
    productTailAt ctx depth left [] = .ok (left, []) := by
  rw [productTailAt, readProductTail]
  rfl

theorem productTailAt_cons (left : Expr) (t : Token) (rest : List Token) :
    productTailAt ctx depth left (t :: rest) =
      match multiplicativeOp? t with
      | none => .ok (left, t :: rest)
      | some op => (do
        let inner ← descend depth t.offset
        let (right, behind) ← unaryAt ctx inner rest
        productTailAt ctx inner (.binary op left right t.offset) behind) := by
  rw [productTailAt, readProductTail]
  cases multiplicativeOp? t with
  | none => rfl
  | some op =>
      simp only [map_bind, unaryAt, bind_map_left, bind_pure_comp, Reading.pair, Functor.map_map]
      rfl

@[simp] theorem unaryAt_nil : unaryAt ctx depth [] = .error ctx.endError := by
  rw [unaryAt, readUnary]
  rfl

theorem unaryAt_cons (t : Token) (rest : List Token) :
    unaryAt ctx depth (t :: rest) =
      if t.kind = .operator .minus then do
        let inner ← descend depth t.offset
        let (operand, behind) ← unaryAt ctx inner rest
        return (.negate operand t.offset, behind)
      else primaryAt ctx depth (t :: rest) := by
  rw [unaryAt, readUnary]
  split
  · simp only [map_bind, unaryAt, bind_map_left, map_pure, Reading.pair]
  · rfl

/-- A name that no parenthesis follows stands for itself or for nothing. -/
def bareName (t : Token) (rest : List Token) : Except SyntaxError (Expr × List Token) :=
  if t.text = "time" then .ok (.identifier t.text t.offset, rest)
  else .error ⟨.expectedCall t.text, t.offset⟩

theorem primaryAt_cons (t : Token) (rest : List Token) :
    primaryAt ctx depth (t :: rest) =
      match t.kind with
      | .number value => .ok (.number value t.offset, rest)
      | .leftParen => (do
        let inner := { ctx with opened := some t.offset }
        let (e, behind) ← expressionAt inner depth rest
        let after ← inner.close behind
        return (e, after.1))
      | .identifier =>
        match rest with
        | [] => bareName t []
        | next :: inside =>
          if next.kind = .leftParen then do
            let (args, after) ← argumentsAt { ctx with opened := some next.offset } depth inside
            return (.call t.text args t.offset, after)
          else bareName t (next :: inside)
      | .string _ => .error ⟨.stringLiteral, t.offset⟩
      | .invalid issue => .error ⟨.lexical issue, t.offset⟩
      | .eof => .error ctx.endError
      | kind => .error ⟨.unexpected kind, t.offset⟩ := by
  have reserved : (reservedNames.contains t.text = true) = (t.text = "time") := by
    simp [reservedNames]
  rw [primaryAt, readPrimary.eq_def]
  cases hkind : t.kind with
  | leftParen =>
      simp only [hkind, map_bind, expressionAt, bind_map_left, map_pure, Reading.pair]
  | identifier =>
      cases rest with
      | nil =>
          simp only [hkind, reserved, bareName]
          split <;> rfl
      | cons next inside =>
          simp only [hkind, reserved, bareName]
          split
          · simp only [map_bind, argumentsAt, bind_map_left, map_pure, Reading.pair,
              Readings.pair]
          · split <;> rfl
  | _ =>
      simp only [hkind]
      rfl

@[simp] theorem argumentsAt_nil :
    argumentsAt ctx depth [] = argumentListAt ctx depth [] := by
  rw [argumentsAt, readArguments]
  rfl

theorem argumentsAt_cons (t : Token) (rest : List Token) :
    argumentsAt ctx depth (t :: rest) =
      if t.kind = .rightParen then .ok ([], rest) else argumentListAt ctx depth (t :: rest) := by
  rw [argumentsAt, readArguments]
  split <;> rfl

theorem argumentListAt_eq (tokens : List Token) :
    argumentListAt ctx depth tokens = (do
      let (first, behind) ← expressionAt ctx depth tokens
      match behind with
      | [] => .error ctx.endError
      | t :: more =>
        if t.kind = .comma then do
          let (others, after) ← argumentListAt ctx depth more
          return (first :: others, after)
        else do
          let after ← ctx.close (t :: more)
          return ([first], after.1)) := by
  rw [argumentListAt, readArgumentList]
  simp only [map_bind, expressionAt, bind_map_left, Reading.pair]
  refine bind_congr fun reading => ?_
  obtain ⟨first, behind, shorter⟩ := reading
  cases behind with
  | nil => rfl
  | cons t more =>
      dsimp only
      split
      · simp only [map_bind, argumentListAt, bind_map_left, map_pure, Readings.pair]
      · simp only [map_bind, map_pure, Readings.pair]

end

/-! ## The small readers -/

theorem descend_of_lt {depth : Nat} (h : depth < maxDepth) (offset : Nat) :
    descend depth offset = .ok (depth + 1) :=
  if_pos h

theorem descend_eq_ok_iff {depth offset inner : Nat} :
    descend depth offset = .ok inner ↔ depth < maxDepth ∧ inner = depth + 1 := by
  constructor
  · intro h
    unfold descend at h
    split at h
    · next hlt =>
        cases h
        exact ⟨hlt, rfl⟩
    · contradiction
  · rintro ⟨hlt, rfl⟩
    exact descend_of_lt hlt offset

/-- Only a closing parenthesis closes. -/
theorem eq_cons_of_close {ctx : Context} {tokens after : List Token}
    {hafter : after.length < tokens.length} (h : ctx.close tokens = .ok ⟨after, hafter⟩) :
    ∃ t, t.kind = .rightParen ∧ tokens = t :: after := by
  cases tokens with
  | nil => simp [Context.close] at h
  | cons t rest =>
      simp only [Context.close] at h
      split at h
      · next hkind =>
          cases h
          exact ⟨t, hkind, rfl⟩
      all_goals contradiction

theorem close_cons {t : Token} (ht : t.kind = .rightParen) (ctx : Context) (rest : List Token) :
    ctx.close (t :: rest) = .ok ⟨rest, Nat.lt_succ_self _⟩ := by
  simp only [Context.close, ht]

end ToneGraph
