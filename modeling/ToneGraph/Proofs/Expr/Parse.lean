import ToneGraph.Proofs.Expr.Grammar
import ToneGraph.Proofs.Expr.Readers
/-!
# Parsing decides the grammar

The readers accept exactly the phrases of `ToneGraph.Grammar` whose depths stay within `maxDepth`.

Soundness climbs from the arguments of a call to a whole expression, once for each token count:
every reader is right about `n` tokens if the expression reader is right about fewer than `n`,
since nested expressions stand between two parentheses.  The two chain readers are given the
phrase read so far and extend it.  A reader stops only in front of a token that cannot extend what
it has read, and soundness says so, which makes the two directions one equivalence.

Completeness follows the rules: a reader in front of a phrase takes all of it, provided that the
token behind the phrase cannot extend it.  A chain is read from the left and derived from the
left, so its invariant is an equation between runs: behind `k` further operands the chain reader
stands where it would stand if it had been started there, `k` levels deeper, with the tree of the
operands so far.

## Main statements

* `Grammar.expression_of_expressionAt`: what is read is an expression.
* `Grammar.Expression.expressionAt_append`: every expression is read.
* `Expr.parse_eq_ok_iff_and_offsets`: a token list is parsed to a tree exactly if its tokens before
  the end of input derive the tree, and the tree lists their offsets.
-/

namespace ToneGraph

/-! ## Operators of the two chains -/

theorem additiveOp?_eq_some_iff {t : Token} {op : BinaryOp} :
    additiveOp? t = some op ↔ t.kind = .operator op.operator ∧ op.isAdditive := by
  cases op <;> unfold additiveOp? <;> split <;>
    simp_all [BinaryOp.operator, BinaryOp.isAdditive]

theorem multiplicativeOp?_eq_some_iff {t : Token} {op : BinaryOp} :
    multiplicativeOp? t = some op ↔ t.kind = .operator op.operator ∧ op.isMultiplicative := by
  cases op <;> unfold multiplicativeOp? <;> split <;>
    simp_all [BinaryOp.operator, BinaryOp.isAdditive, BinaryOp.isMultiplicative]

private theorem eq_of_bareName {t : Token} {rest after : List Token} {e : Expr}
    (h : bareName t rest = .ok (e, after)) :
    t.text = "time" ∧ e = .identifier t.text t.offset ∧ after = rest := by
  unfold bareName at h
  split at h
  · next htime =>
      cases h
      exact ⟨htime, rfl, rfl⟩
  · contradiction

namespace Grammar

/-! ## What cannot extend a phrase -/

/-- What follows `us` cannot turn a name at the end of `us` into a call. -/
def EndsUnary (us rest : List Token) : Prop :=
  ∀ t ∈ rest.head?, t.kind = .leftParen → ∀ u ∈ us.getLast?, u.kind ≠ .identifier

/-- What follows `us` cannot extend a product at the end of `us`. -/
def EndsProduct (us rest : List Token) : Prop :=
  EndsUnary us rest ∧ ∀ t ∈ rest.head?, multiplicativeOp? t = none

/-- What follows `us` cannot extend a sum at the end of `us`. -/
def EndsSum (us rest : List Token) : Prop :=
  EndsProduct us rest ∧ ∀ t ∈ rest.head?, additiveOp? t = none

theorem endsSum_nil (us : List Token) : EndsSum us [] := by
  simp [EndsSum, EndsProduct, EndsUnary]

theorem endsSum_cons {t : Token} (ht : t.kind = .comma ∨ t.kind = .rightParen)
    (us rest : List Token) : EndsSum us (t :: rest) := by
  rcases ht with ht | ht <;>
    simp [EndsSum, EndsProduct, EndsUnary, additiveOp?, multiplicativeOp?, ht]

theorem endsProduct_cons {t : Token} {op : BinaryOp} (hkind : t.kind = .operator op.operator)
    (hadd : op.isAdditive) (us rest : List Token) : EndsProduct us (t :: rest) := by
  cases op <;>
    simp_all [EndsProduct, EndsUnary, multiplicativeOp?, BinaryOp.operator, BinaryOp.isAdditive]

theorem endsUnary_cons {t : Token} {symbol : Operator} (hkind : t.kind = .operator symbol)
    (us rest : List Token) : EndsUnary us (t :: rest) := by
  simp [EndsUnary, hkind]

theorem endsUnary_of_last {u : Token} (hu : u.kind ≠ .identifier) (us rest : List Token) :
    EndsUnary (us ++ [u]) rest := by
  intro t _ _ v hv
  rw [List.getLast?_concat] at hv
  cases hv
  exact hu

/-- Only the last operand of a phrase can be extended. -/
theorem endsUnary_append_iff {vs : List Token} (hvs : vs ≠ []) (us rest : List Token) :
    EndsUnary (us ++ vs) rest ↔ EndsUnary vs rest := by
  have hlast : (us ++ vs).getLast? = vs.getLast? := by
    rw [List.getLast?_append, Option.or_of_isSome (List.getLast?_isSome.2 hvs)]
  rw [EndsUnary, EndsUnary, hlast]

/-- The operator before the last operand of a chain, and what stands before it, do not matter. -/
theorem endsUnary_operand_iff {vs : List Token} (hvs : vs ≠ []) (us rest : List Token)
    (t : Token) : EndsUnary (us ++ t :: vs) rest ↔ EndsUnary vs rest := by
  rw [List.append_cons, endsUnary_append_iff hvs]

/-! ## What is read is a phrase -/

/-- Expressions of fewer than `n` tokens are read rightly. -/
def SoundBelow (n : Nat) : Prop :=
  ∀ {ctx : Context} {depth : Nat} {tokens rest : List Token} {e : Expr}, tokens.length < n →
    expressionAt ctx depth tokens = .ok (e, rest) →
    ∃ us, tokens = us ++ rest ∧ Expression maxDepth (depth + 1) us e ∧ EndsSum us rest

section Sound

variable {n : Nat} {ctx : Context}

/-- What is read as a list of arguments is one, with a closing parenthesis behind it. -/
theorem arguments_of_argumentListAt (sound : SoundBelow n) {depth : Nat}
    {tokens rest : List Token} {args : List Expr} (hlen : tokens.length < n)
    (h : argumentListAt ctx depth tokens = .ok (args, rest)) :
    ∃ us closing, closing.kind = .rightParen ∧ tokens = us ++ closing :: rest ∧
      Arguments maxDepth (depth + 1) us args := by
  rw [argumentListAt_eq] at h
  obtain ⟨⟨first, behind⟩, hfirst, hmore⟩ := bind_eq_ok_iff.1 h
  obtain ⟨us, htokens, hus, -⟩ := sound hlen hfirst
  have hcount : tokens.length = us.length + behind.length := by
    rw [htokens, List.length_append]
  cases behind with
  | nil => contradiction
  | cons t more =>
      have hshort : more.length < tokens.length := by
        rw [hcount, List.length_cons]
        omega
      dsimp only at hmore
      split at hmore
      · next hcomma =>
          obtain ⟨⟨others, after⟩, hothers, heq⟩ := bind_eq_ok_iff.1 hmore
          cases heq
          obtain ⟨vs, closing, hclose, hrest, hvs⟩ :=
            arguments_of_argumentListAt sound (Nat.lt_trans hshort hlen) hothers
          refine ⟨us ++ t :: vs, closing, hclose, ?_, .more hus hcomma hvs⟩
          rw [htokens, hrest, List.append_assoc, List.cons_append]
      · obtain ⟨⟨after, hlt⟩, hafter, heq⟩ := bind_eq_ok_iff.1 hmore
        cases heq
        obtain ⟨closing, hclose, hcons⟩ := eq_cons_of_close hafter
        exact ⟨us, closing, hclose, htokens.trans (congrArg (us ++ ·) hcons), .last hus⟩
termination_by tokens.length

/-- What is read behind the opening parenthesis of a call is its arguments, if any, and the
closing parenthesis. -/
theorem call_of_argumentsAt (sound : SoundBelow n) {depth : Nat} {tokens rest : List Token}
    {args : List Expr} (hlen : tokens.length < n)
    (h : argumentsAt ctx depth tokens = .ok (args, rest)) :
    ∃ closing, closing.kind = .rightParen ∧
      (tokens = closing :: rest ∧ args = [] ∨
        ∃ us, tokens = us ++ closing :: rest ∧ Arguments maxDepth (depth + 1) us args) := by
  cases tokens with
  | nil =>
      rw [argumentsAt_nil] at h
      obtain ⟨us, closing, hclose, hus, hargs⟩ := arguments_of_argumentListAt sound hlen h
      exact ⟨closing, hclose, .inr ⟨us, hus, hargs⟩⟩
  | cons t more =>
      rw [argumentsAt_cons] at h
      split at h
      · next hclose =>
          cases h
          exact ⟨t, hclose, .inl ⟨rfl, rfl⟩⟩
      · obtain ⟨us, closing, hclose, hus, hargs⟩ := arguments_of_argumentListAt sound hlen h
        exact ⟨closing, hclose, .inr ⟨us, hus, hargs⟩⟩

/-- What is read as a primary is one. -/
theorem primary_of_primaryAt (sound : SoundBelow n) {depth : Nat} {t : Token}
    {tokens rest : List Token} {e : Expr} (hlen : tokens.length < n)
    (h : primaryAt ctx depth (t :: tokens) = .ok (e, rest)) :
    ∃ us, t :: tokens = us ++ rest ∧ Primary maxDepth depth us e ∧ EndsUnary us rest := by
  rw [primaryAt_cons] at h
  split at h
  · next value hkind =>
      cases h
      exact ⟨[t], rfl, .number hkind, endsUnary_of_last (by simp [hkind]) [] _⟩
  · next hopen =>
      obtain ⟨⟨inside, behind⟩, hinside, hmore⟩ := bind_eq_ok_iff.1 h
      obtain ⟨⟨after, hlt⟩, hafter, heq⟩ := bind_eq_ok_iff.1 hmore
      cases heq
      obtain ⟨us, rfl, hus, -⟩ := sound hlen hinside
      obtain ⟨closing, hclose, rfl⟩ := eq_cons_of_close hafter
      refine ⟨t :: (us ++ [closing]), ?_, .group hopen hus hclose,
        endsUnary_of_last (by simp [hclose]) (t :: us) _⟩
      rw [List.cons_append, List.append_assoc, List.singleton_append]
  · next hname =>
      cases tokens with
      | nil =>
          obtain ⟨htime, rfl, rfl⟩ := eq_of_bareName h
          exact ⟨[t], rfl, .time hname htime, (endsSum_nil [t]).1.1⟩
      | cons opening inside =>
          dsimp only at h
          split at h
          · next hopen =>
              obtain ⟨⟨args, after⟩, hargs, heq⟩ := bind_eq_ok_iff.1 h
              cases heq
              obtain ⟨closing, hclose, ⟨rfl, rfl⟩ | ⟨us, rfl, hus⟩⟩ :=
                call_of_argumentsAt sound (Nat.lt_of_succ_lt hlen) hargs
              · exact ⟨[t, opening, closing], rfl, .callNone hname hopen hclose,
                  endsUnary_of_last (by simp [hclose]) [t, opening] _⟩
              · refine ⟨t :: opening :: (us ++ [closing]), ?_, .call hname hopen hus hclose,
                  endsUnary_of_last (by simp [hclose]) (t :: opening :: us) _⟩
                rw [List.cons_append, List.cons_append, List.append_assoc, List.singleton_append]
          · next hopen =>
              obtain ⟨htime, rfl, rfl⟩ := eq_of_bareName h
              refine ⟨[t], rfl, .time hname htime, ?_⟩
              intro next hnext hparen
              cases hnext
              contradiction
  all_goals contradiction

/-- What is read as an operand of a product is one. -/
theorem unary_of_unaryAt (sound : SoundBelow n) {depth : Nat} {tokens rest : List Token}
    {e : Expr} (hlen : tokens.length ≤ n)
    (h : unaryAt ctx depth tokens = .ok (e, rest)) :
    ∃ us, tokens = us ++ rest ∧ Unary maxDepth depth us e ∧ EndsUnary us rest := by
  induction tokens generalizing depth e with
  | nil =>
      rw [unaryAt_nil] at h
      contradiction
  | cons t more ih =>
      rw [unaryAt_cons] at h
      split at h
      · next hkind =>
          obtain ⟨inner, hinner, hmore⟩ := bind_eq_ok_iff.1 h
          obtain ⟨hdepth, rfl⟩ := descend_eq_ok_iff.1 hinner
          obtain ⟨⟨operand, behind⟩, hoperand, heq⟩ := bind_eq_ok_iff.1 hmore
          cases heq
          obtain ⟨us, rfl, hus, hends⟩ := ih (Nat.le_of_succ_le hlen) hoperand
          exact ⟨t :: us, rfl, .minus hkind hdepth hus,
            (endsUnary_operand_iff hus.ne_nil [] _ t).2 hends⟩
      · obtain ⟨us, hus, hprimary, hends⟩ := primary_of_primaryAt sound hlen h
        exact ⟨us, hus, .primary hprimary, hends⟩

/-- What a chain reader reads behind the first operands extends the chain, for both chains at once:
an operator and an operand make a longer chain, one level deeper. -/
theorem chain_of_tail {op? : Token → Option BinaryOp}
    {operandAt : Nat → List Token → Except SyntaxError (Expr × List Token)}
    {tailAt : Nat → Expr → List Token → Except SyntaxError (Expr × List Token)}
    {Operand Chain : Nat → List Token → Expr → Prop} {Ends : List Token → List Token → Prop}
    {depth : Nat}
    (hnil : ∀ d left, tailAt d left [] = .ok (left, []))
    (hcons : ∀ d left t more, tailAt d left (t :: more) =
      match op? t with
      | none => .ok (left, t :: more)
      | some op => (do
        let inner ← descend d t.offset
        let (right, behind) ← operandAt inner more
        tailAt inner (.binary op left right t.offset) behind))
    (hoperand : ∀ {d tokens right behind}, tokens.length ≤ n →
      operandAt d tokens = .ok (right, behind) →
      ∃ ws, tokens = ws ++ behind ∧ Operand d ws right ∧ ∀ us t, Ends (us ++ t :: ws) behind)
    (hnext : ∀ {k us t op ws left right}, Chain k us left → op? t = some op →
      depth + k < maxDepth → Operand (depth + (k + 1)) ws right →
      Chain (k + 1) (us ++ t :: ws) (.binary op left right t.offset))
    {k : Nat} {us tokens rest : List Token} {left e : Expr} (hlen : tokens.length ≤ n)
    (hleft : Chain k us left) (hends : Ends us tokens)
    (h : tailAt (depth + k) left tokens = .ok (e, rest)) :
    ∃ vs k', tokens = vs ++ rest ∧ Chain k' (us ++ vs) e ∧ Ends (us ++ vs) rest ∧
      ∀ t ∈ rest.head?, op? t = none := by
  induction hcount : tokens.length using Nat.strongRecOn
    generalizing k us tokens left with
  | _ count ih =>
      subst hcount
      cases tokens with
      | nil =>
          rw [hnil] at h
          cases h
          exact ⟨[], k, rfl, by rwa [List.append_nil], by rwa [List.append_nil], nofun⟩
      | cons t more =>
          rw [hcons] at h
          split at h
          · next hop =>
              cases h
              refine ⟨[], k, rfl, by rwa [List.append_nil], by rwa [List.append_nil], ?_⟩
              intro u hu
              cases hu
              exact hop
          · next op hop =>
              obtain ⟨inner, hinner, hread⟩ := bind_eq_ok_iff.1 h
              obtain ⟨hdepth, rfl⟩ := descend_eq_ok_iff.1 hinner
              obtain ⟨⟨right, behind⟩, hright, htail⟩ := bind_eq_ok_iff.1 hread
              obtain ⟨ws, hmore, hws, hbehind⟩ := hoperand (Nat.le_of_succ_le hlen) hright
              -- The operator alone makes the rest shorter, whatever the operand took.
              have hshort : behind.length ≤ more.length := by
                rw [hmore, List.length_append]
                exact Nat.le_add_left _ _
              obtain ⟨vs, k', hsplit, hvs, hafter, hstop⟩ := ih behind.length
                (Nat.lt_succ_of_le hshort) (Nat.le_trans hshort (Nat.le_of_succ_le hlen))
                (hnext hleft hop hdepth hws) (hbehind us t) htail rfl
              refine ⟨t :: (ws ++ vs), k', ?_, ?_, ?_, hstop⟩
              · rw [hmore, hsplit, List.cons_append, List.append_assoc]
              · simpa only [List.append_assoc, List.cons_append] using hvs
              · simpa only [List.append_assoc, List.cons_append] using hafter

/-- What is read behind the first operands of a product extends the product. -/
theorem multiplicative_of_productTailAt (sound : SoundBelow n) {depth k : Nat}
    {us tokens rest : List Token} {left e : Expr} (hlen : tokens.length ≤ n)
    (hleft : Multiplicative maxDepth depth k us left) (hends : EndsUnary us tokens)
    (h : productTailAt ctx (depth + k) left tokens = .ok (e, rest)) :
    ∃ vs k', tokens = vs ++ rest ∧ Multiplicative maxDepth depth k' (us ++ vs) e ∧
      EndsProduct (us ++ vs) rest := by
  have hoperand : ∀ {d tokens right behind}, tokens.length ≤ n →
      unaryAt ctx d tokens = .ok (right, behind) →
      ∃ ws, tokens = ws ++ behind ∧ Unary maxDepth d ws right ∧
        ∀ us t, EndsUnary (us ++ t :: ws) behind := by
    intro d tokens right behind hlen hright
    obtain ⟨ws, htokens, hws, hends⟩ := unary_of_unaryAt sound hlen hright
    exact ⟨ws, htokens, hws, fun us t => (endsUnary_operand_iff hws.ne_nil us _ t).2 hends⟩
  refine chain_of_tail (productTailAt_nil ctx) (productTailAt_cons ctx) hoperand ?_ hlen hleft
    hends h
  intro k us t op ws left right hleft hop hdepth hws
  obtain ⟨hkind, hmul⟩ := multiplicativeOp?_eq_some_iff.1 hop
  exact .next hleft hkind hmul hdepth hws

/-- What is read as a product is one. -/
theorem multiplicative_of_productAt (sound : SoundBelow n) {depth : Nat}
    {tokens rest : List Token} {e : Expr} (hlen : tokens.length ≤ n)
    (h : productAt ctx depth tokens = .ok (e, rest)) :
    ∃ us k, tokens = us ++ rest ∧ Multiplicative maxDepth depth k us e ∧
      EndsProduct us rest := by
  rw [productAt_eq] at h
  obtain ⟨⟨first, behind⟩, hfirst, htail⟩ := bind_eq_ok_iff.1 h
  obtain ⟨us, rfl, hus, hends⟩ := unary_of_unaryAt sound hlen hfirst
  have hshort : behind.length ≤ n := by
    rw [List.length_append] at hlen
    omega
  obtain ⟨vs, k, rfl, hvs, hrest⟩ :=
    multiplicative_of_productTailAt sound hshort (.first hus) hends htail
  exact ⟨us ++ vs, k, (List.append_assoc us vs rest).symm, hvs, hrest⟩

/-- What is read behind the first operands of a sum extends the sum. -/
theorem additive_of_sumTailAt (sound : SoundBelow n) {depth k : Nat}
    {us tokens rest : List Token} {left e : Expr} (hlen : tokens.length ≤ n)
    (hleft : Additive maxDepth depth k us left) (hends : EndsProduct us tokens)
    (h : sumTailAt ctx (depth + k) left tokens = .ok (e, rest)) :
    ∃ vs k', tokens = vs ++ rest ∧ Additive maxDepth depth k' (us ++ vs) e ∧
      EndsSum (us ++ vs) rest := by
  have hoperand : ∀ {d tokens right behind}, tokens.length ≤ n →
      productAt ctx d tokens = .ok (right, behind) →
      ∃ ws, tokens = ws ++ behind ∧ (∃ j, Multiplicative maxDepth d j ws right) ∧
        ∀ us t, EndsProduct (us ++ t :: ws) behind := by
    intro d tokens right behind hlen hright
    obtain ⟨ws, j, htokens, hws, hends, hstop⟩ := multiplicative_of_productAt sound hlen hright
    exact ⟨ws, htokens, ⟨j, hws⟩,
      fun us t => ⟨(endsUnary_operand_iff hws.ne_nil us _ t).2 hends, hstop⟩⟩
  refine chain_of_tail (sumTailAt_nil ctx) (sumTailAt_cons ctx) hoperand ?_ hlen hleft hends h
  rintro k us t op ws left right hleft hop hdepth ⟨j, hws⟩
  obtain ⟨hkind, hadd⟩ := additiveOp?_eq_some_iff.1 hop
  exact .next hleft hkind hadd hdepth hws

end Sound

theorem SoundBelow.succ {n : Nat} (sound : SoundBelow n) : SoundBelow (n + 1) := by
  intro ctx depth tokens rest e hlen h
  replace hlen : tokens.length ≤ n := Nat.le_of_lt_succ hlen
  rw [expressionAt_eq] at h
  obtain ⟨inner, hinner, hsum⟩ := bind_eq_ok_iff.1 h
  obtain ⟨hdepth, rfl⟩ := descend_eq_ok_iff.1 hinner
  obtain ⟨⟨first, behind⟩, hfirst, htail⟩ := bind_eq_ok_iff.1 hsum
  obtain ⟨us, j, rfl, hus, hends⟩ := multiplicative_of_productAt sound hlen hfirst
  have hshort : behind.length ≤ n := by
    rw [List.length_append] at hlen
    omega
  obtain ⟨vs, k, rfl, hvs, hrest⟩ := additive_of_sumTailAt sound hshort (.first hus) hends htail
  exact ⟨us ++ vs, (List.append_assoc us vs rest).symm, .additive hdepth hvs, hrest⟩

theorem soundBelow (n : Nat) : SoundBelow n := by
  induction n with
  | zero => exact fun hlen _ => absurd hlen (Nat.not_lt_zero _)
  | succ n ih => exact ih.succ

/-- What is read as an expression is one, one level deeper than what holds it, and what is left
cannot extend it. -/
theorem expression_of_expressionAt {ctx : Context} {depth : Nat} {tokens rest : List Token}
    {e : Expr} (h : expressionAt ctx depth tokens = .ok (e, rest)) :
    ∃ us, tokens = us ++ rest ∧ Expression maxDepth (depth + 1) us e ∧ EndsSum us rest :=
  soundBelow (tokens.length + 1) (Nat.lt_succ_self _) h

/-! ## Every phrase is read -/

theorem sumTailAt_of_endsSum {us rest : List Token} (hrest : EndsSum us rest) (ctx : Context)
    (depth : Nat) (left : Expr) : sumTailAt ctx depth left rest = .ok (left, rest) := by
  cases rest with
  | nil => exact sumTailAt_nil ctx depth left
  | cons t more => rw [sumTailAt_cons, hrest.2 t rfl]

theorem productTailAt_of_endsProduct {us rest : List Token} (hrest : EndsProduct us rest)
    (ctx : Context) (depth : Nat) (left : Expr) :
    productTailAt ctx depth left rest = .ok (left, rest) := by
  cases rest with
  | nil => exact productTailAt_nil ctx depth left
  | cons t more => rw [productTailAt_cons, hrest.2 t rfl]

private theorem primaryAt_name {t : Token} (hkind : t.kind = .identifier) (htime : t.text = "time")
    {rest : List Token} (hrest : EndsUnary [t] rest) (ctx : Context) (depth : Nat) :
    primaryAt ctx depth (t :: rest) = .ok (.identifier t.text t.offset, rest) := by
  rw [primaryAt_cons, hkind]
  cases rest with
  | nil => exact if_pos htime
  | cons next inside =>
      have hnext : next.kind ≠ .leftParen := fun hparen => hrest next rfl hparen t rfl hkind
      show (if next.kind = .leftParen then _ else _) = _
      rw [if_neg hnext]
      exact if_pos htime

private theorem unaryAt_eq_primaryAt {limit inner : Nat} {us rest : List Token} {e : Expr}
    (h : Primary limit inner us e) {ctx : Context} {depth : Nat} :
    unaryAt ctx depth (us ++ rest) = primaryAt ctx depth (us ++ rest) := by
  obtain ⟨t, more, rfl, ht⟩ := h.exists_cons
  rw [List.cons_append, unaryAt_cons, if_neg]
  intro hkind
  rw [hkind] at ht
  contradiction

private theorem argumentsAt_eq_argumentListAt {limit inner : Nat} {us rest : List Token}
    {args : List Expr} (h : Arguments limit inner us args) {ctx : Context} {depth : Nat} :
    argumentsAt ctx depth (us ++ rest) = argumentListAt ctx depth (us ++ rest) := by
  obtain ⟨t, more, rfl, ht⟩ := h.exists_cons
  rw [List.cons_append, argumentsAt_cons, if_neg]
  intro hkind
  rw [hkind] at ht
  contradiction

mutual

/-- An expression is read whole, whatever follows that cannot extend it. -/
theorem Expression.expressionAt_append {ctx : Context} {depth inner : Nat} {us rest : List Token}
    {e : Expr} : Expression maxDepth inner us e → inner = depth + 1 → EndsSum us rest →
    expressionAt ctx depth (us ++ rest) = .ok (e, rest)
  | .additive hdepth h, hinner, hrest => by
      rw [expressionAt_eq, descend_of_lt (by omega), ← hinner]
      exact h.sumAt_append hrest.1 |>.trans (sumTailAt_of_endsSum hrest _ _ _)

/-- Reading a sum of `k` further operands leads to where its chain reader would start behind it,
`k` levels deeper. -/
theorem Additive.sumAt_append {ctx : Context} {depth k : Nat} {us rest : List Token} {e : Expr} :
    Additive maxDepth depth k us e → EndsProduct us rest →
    sumAt ctx depth (us ++ rest) = sumTailAt ctx (depth + k) e rest
  | .first h, hrest => by
      rw [sumAt, h.productAt_append hrest.1, productTailAt_of_endsProduct hrest]
      rfl
  | .next (k := k) hleft hkind hadd hdepth hright, hrest => by
      have hlt : depth + k < maxDepth := hdepth
      have hright_ends := (endsUnary_operand_iff hright.ne_nil _ _ _).1 hrest.1
      rw [List.append_assoc, List.cons_append, hleft.sumAt_append (endsProduct_cons hkind hadd _ _),
        sumTailAt_cons, additiveOp?_eq_some_iff.2 ⟨hkind, hadd⟩]
      show (descend _ _ >>= _) = _
      rw [descend_of_lt hlt]
      show (productAt _ _ _ >>= _) = _
      rw [Nat.add_assoc, hright.productAt_append hright_ends, productTailAt_of_endsProduct hrest]
      rfl

/-- Reading a product of `k` further operands leads to where its chain reader would start behind
it, `k` levels deeper. -/
theorem Multiplicative.productAt_append {ctx : Context} {depth k : Nat} {us rest : List Token}
    {e : Expr} : Multiplicative maxDepth depth k us e → EndsUnary us rest →
    productAt ctx depth (us ++ rest) = productTailAt ctx (depth + k) e rest
  | .first h, hrest => by
      rw [productAt_eq, h.unaryAt_append hrest]
      rfl
  | .next (k := k) hleft hkind hmul hdepth hright, hrest => by
      have hlt : depth + k < maxDepth := hdepth
      have hright_ends := (endsUnary_operand_iff hright.ne_nil _ _ _).1 hrest
      rw [List.append_assoc, List.cons_append, hleft.productAt_append (endsUnary_cons hkind _ _),
        productTailAt_cons, multiplicativeOp?_eq_some_iff.2 ⟨hkind, hmul⟩]
      show (descend _ _ >>= _) = _
      rw [descend_of_lt hlt]
      show (unaryAt _ _ _ >>= _) = _
      rw [Nat.add_assoc, hright.unaryAt_append hright_ends]
      rfl

/-- An operand of a product is read whole. -/
theorem Unary.unaryAt_append {ctx : Context} {depth : Nat} {us rest : List Token} {e : Expr} :
    Unary maxDepth depth us e → EndsUnary us rest →
    unaryAt ctx depth (us ++ rest) = .ok (e, rest)
  | .primary h, hrest => (unaryAt_eq_primaryAt h).trans (h.primaryAt_append hrest)
  | .minus hkind hdepth h, hrest => by
      rw [List.cons_append, unaryAt_cons, if_pos hkind, descend_of_lt hdepth]
      show (unaryAt _ _ _ >>= _) = _
      rw [h.unaryAt_append ((endsUnary_operand_iff h.ne_nil [] _ _).1 hrest)]
      rfl

/-- A primary is read whole. -/
theorem Primary.primaryAt_append {ctx : Context} {depth : Nat} {us rest : List Token} {e : Expr} :
    Primary maxDepth depth us e → EndsUnary us rest →
    primaryAt ctx depth (us ++ rest) = .ok (e, rest)
  | .number hkind, _ => by
      rw [List.singleton_append, primaryAt_cons, hkind]
  | .group hopen h hclose, _ => by
      rw [List.cons_append, List.append_assoc, List.singleton_append, primaryAt_cons, hopen]
      show (expressionAt _ _ _ >>= _) = _
      rw [h.expressionAt_append rfl (endsSum_cons (.inr hclose) _ _)]
      show (Context.close _ _ >>= _) = _
      rw [close_cons hclose]
      rfl
  | .callNone hname hopen hclose, _ => by
      rw [List.cons_append, List.cons_append, List.singleton_append, primaryAt_cons, hname]
      show (if _ then _ else _) = _
      rw [if_pos hopen]
      show (argumentsAt _ _ _ >>= _) = _
      rw [argumentsAt_cons, if_pos hclose]
      rfl
  | .call hname hopen h hclose, _ => by
      rw [List.cons_append, List.cons_append, List.append_assoc, List.singleton_append,
        primaryAt_cons, hname]
      show (if _ then _ else _) = _
      rw [if_pos hopen]
      show (argumentsAt _ _ _ >>= _) = _
      rw [argumentsAt_eq_argumentListAt h, h.argumentListAt_append rfl hclose]
      rfl
  | .time hkind htime, hrest => primaryAt_name hkind htime hrest ctx depth

/-- The arguments of a call are read whole, with the closing parenthesis. -/
theorem Arguments.argumentListAt_append {ctx : Context} {depth inner : Nat}
    {us rest : List Token} {args : List Expr} {closing : Token} :
    Arguments maxDepth inner us args → inner = depth + 1 → closing.kind = .rightParen →
    argumentListAt ctx depth (us ++ closing :: rest) = .ok (args, rest)
  | .last h, hinner, hclose => by
      rw [argumentListAt_eq, h.expressionAt_append hinner (endsSum_cons (.inr hclose) _ _)]
      show (if _ then _ else _) = _
      rw [if_neg (by rw [hclose]; nofun), close_cons hclose]
      rfl
  | .more h hcomma hargs, hinner, hclose => by
      rw [List.append_assoc, List.cons_append, argumentListAt_eq,
        h.expressionAt_append hinner (endsSum_cons (.inl hcomma) _ _)]
      show (if _ then _ else _) = _
      rw [if_pos hcomma]
      show (argumentListAt _ _ _ >>= _) = _
      rw [hargs.argumentListAt_append hinner hclose]
      rfl

end

/-- What stands alone is an expression exactly if it is read to its end. -/
theorem expression_iff_expressionAt (ctx : Context) {us : List Token} {e : Expr} :
    Expression maxDepth 1 us e ↔ expressionAt ctx 0 us = .ok (e, []) := by
  constructor
  · intro h
    have hread : expressionAt ctx 0 (us ++ []) = .ok (e, []) :=
      h.expressionAt_append rfl (endsSum_nil us)
    rwa [List.append_nil] at hread
  · intro h
    obtain ⟨vs, htokens, hvs, -⟩ := expression_of_expressionAt h
    rw [List.append_nil] at htokens
    rwa [htokens]

end Grammar

/-! ## Whole token lists -/

/-- Parsing reads an expression from the tokens before the end of input and wants nothing behind
it. -/
theorem Expr.parse_eq_ok_iff_expressionAt {tokens : List Token} {e : Expr} :
    Expr.parse tokens = .ok e ↔
      expressionAt ⟨endOffset tokens, none⟩ 0 (tokens.takeWhile (·.kind ≠ .eof)) =
        .ok (e, []) := by
  unfold Expr.parse expressionAt
  rw [map_eq_ok_iff]
  split
  · next hnil =>
      rw [hnil]
      constructor
      · intro h
        contradiction
      · rintro ⟨⟨_, rest, hshorter⟩, _, _⟩
        exact absurd hshorter (Nat.not_lt_zero _)
  · next t rest hcons =>
      rw [hcons, bind_eq_ok_iff]
      refine exists_congr fun reading => and_congr_right fun _ => ?_
      obtain ⟨inner, behind, hshorter⟩ := reading
      cases behind with
      | nil => simp [Reading.pair]
      | cons u more =>
          dsimp only [Reading.pair]
          constructor
          · intro h
            split at h <;> contradiction
          · intro h
            cases h

/-- A token list is parsed to a tree exactly if its tokens before the end of input derive the tree
with the whole at depth 1 and nothing deeper than 256.  Such a tree is unique, and its offsets in
the order of the text are those of the numbers, names and operators among the tokens. -/
theorem Expr.parse_eq_ok_iff_and_offsets (tokens : List Token) (e : Expr) :
    let us := tokens.takeWhile (·.kind ≠ .eof)
    (Expr.parse tokens = .ok e ↔ Grammar.Expression 256 1 us e) ∧
      (Grammar.Expression 256 1 us e →
        (∀ e', Grammar.Expression 256 1 us e' → e' = e) ∧ e.offsets = nodeOffsets us) := by
  intro us
  have hread : ∀ e, Grammar.Expression 256 1 us e ↔
      expressionAt ⟨endOffset tokens, none⟩ 0 us = .ok (e, []) :=
    fun e => Grammar.expression_iff_expressionAt _
  refine ⟨Expr.parse_eq_ok_iff_expressionAt.trans (hread e).symm, ?_⟩
  intro he
  refine ⟨?_, he.offsets⟩
  intro e' he'
  have heq := ((hread e').1 he').symm.trans ((hread e).1 he)
  cases heq
  rfl

/-- The source `time - time - time` takes the last operand from the difference of the others. -/
theorem Expr.parse_differences :
    let name offset : Token := ⟨.identifier, "time", offset⟩
    let minus offset : Token := ⟨.operator .minus, "-", offset⟩
    let e : Expr := .binary .sub
      (.binary .sub (.identifier "time" 0) (.identifier "time" 7) 5) (.identifier "time" 14) 12
    Expr.parse [name 0, minus 5, name 7, minus 12, name 14, ⟨.eof, "", 18⟩] = .ok e ∧
      e.offsets = [0, 5, 7, 12, 14] := by
  intro name minus e
  have operand : ∀ depth offset, Grammar.Multiplicative 256 depth 0 [name offset]
      (.identifier "time" offset) :=
    fun depth offset => .first (.primary (.time (t := name offset) rfl rfl))
  have difference : Grammar.Additive 256 1 1 [name 0, minus 5, name 7]
      (.binary .sub (.identifier "time" 0) (.identifier "time" 7) 5) :=
    .next (t := minus 5) (.first (operand 1 0)) rfl rfl (by decide) (operand 2 7)
  have whole : Grammar.Additive 256 1 2 [name 0, minus 5, name 7, minus 12, name 14] e :=
    .next (t := minus 12) difference rfl rfl (by decide) (operand 3 14)
  have derived : Grammar.Expression 256 1 [name 0, minus 5, name 7, minus 12, name 14] e :=
    .additive (by decide) whole
  obtain ⟨hparse, hunique⟩ := Expr.parse_eq_ok_iff_and_offsets
    [name 0, minus 5, name 7, minus 12, name 14, ⟨.eof, "", 18⟩] e
  exact ⟨hparse.2 derived, (hunique derived).2⟩

end ToneGraph
