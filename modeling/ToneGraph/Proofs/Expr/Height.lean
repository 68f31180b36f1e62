import Mathlib.Algebra.Group.Nat.Defs
import ToneGraph.Proofs.Expr.Parse
/-!
# How high a parsed tree can be

The parser counts depth along the text: a further operand of a chain is one deeper than the operand
before it.  The tree grows the other way.  A chain is joined from the left, so each operator pushes
the operands before it down by one, and the first operand of a chain of `k` operators, although it
stands at the depth where the chain begins, ends up `k` levels lower in the tree.  So the depth
limit is no limit on the height: the source of 255 minus signs and `1 + 1` is parsed to a tree of
height 257.

What the limit bounds is the height without the steps that go to a left operand.  It bounds the
height itself where no left operand is higher than the right one beside it.  A short source gives no
high tree either: each node above others is brought in by an operator or a name of its own.

On the height of all trees it gives a square.  With `n` levels left an operand has height at most
`n ^ 2 + 1`, the product and the sum around it add at most `n` operators each, and
`n ^ 2 + 1 + n + n` is `(n + 1) ^ 2`.  Chains in calls in chains reach this bound at every level.

## Main definitions

* `Expr.counted`: the height without the steps that go to a left operand.
* `Expr.LeansRight`: no left operand is higher than the right one.

## Main statements

* `Grammar.Expression.counted_le`, `Grammar.Expression.height_le_branchings`,
  `Grammar.Expression.height_le`: the bounds for phrases.
* `Expr.height_of_parse`: the bounds for parsed trees, and where the limit bounds the height.
* `Expr.greatest_height_of_parse`: no parsed tree is higher than `256 ^ 2`, and one is as high.
* `Expr.parse_minuses_higher_than_maxDepth`: a parsed tree higher than the depth limit.
-/

namespace ToneGraph

namespace Expr

theorem height_pos (e : Expr) : 0 < e.height := by
  cases e <;> simp [height]

/-! ## Steps to the right -/

mutual

/-- The number of nodes on the path from the root to a leaf that has most of them, where a binary
operator does not count if the path goes on to its left operand. -/
def counted : Expr → Nat
  | number _ _ => 1
  | identifier _ _ => 1
  | call _ args _ => countedAll args + 1
  | binary _ left right _ => max (counted left) (counted right + 1)
  | negate operand _ => counted operand + 1

/-- The greatest number of several expressions. -/
def countedAll : List Expr → Nat
  | [] => 0
  | e :: rest => max (counted e) (countedAll rest)

end

mutual

/-- Whether no left operand is higher than the right one. -/
def LeansRight : Expr → Prop
  | number _ _ => True
  | identifier _ _ => True
  | call _ args _ => AllLeanRight args
  | binary _ left right _ => height left ≤ height right ∧ LeansRight left ∧ LeansRight right
  | negate operand _ => LeansRight operand

/-- Whether this holds of several expressions. -/
def AllLeanRight : List Expr → Prop
  | [] => True
  | e :: rest => LeansRight e ∧ AllLeanRight rest

end

mutual

/-- A highest path of a tree that leans right goes to no left operand. -/
theorem counted_eq_height : ∀ {e : Expr}, e.LeansRight → e.counted = e.height
  | number _ _, _ => rfl
  | identifier _ _, _ => rfl
  | call _ _ _, h => by
      rw [LeansRight] at h
      rw [counted, height, countedAll_eq_heights h]
  | binary _ _ _ _, h => by
      rw [LeansRight] at h
      obtain ⟨hle, hleft, hright⟩ := h
      rw [counted, height, counted_eq_height hleft, counted_eq_height hright]
      omega
  | negate _ _, h => by
      rw [LeansRight] at h
      rw [counted, height, counted_eq_height h]

theorem countedAll_eq_heights : ∀ {es : List Expr}, AllLeanRight es → countedAll es = heights es
  | [], _ => rfl
  | _ :: _, h => by
      rw [AllLeanRight] at h
      rw [countedAll, heights, counted_eq_height h.1, countedAll_eq_heights h.2]

end

end Expr

private theorem square_succ (n : Nat) : (n + 1) ^ 2 = n ^ 2 + n + n + 1 := by
  rw [Nat.pow_two, Nat.pow_two, Nat.succ_mul, Nat.mul_succ]
  omega

private theorem square_le {m n : Nat} (h : m ≤ n) : m ^ 2 ≤ n ^ 2 :=
  Nat.pow_le_pow_left h 2

/-! ## Operators and names -/

/-- Whether a token may bring in a node that stands above others: operators and names do. -/
def TokenKind.branches : TokenKind → Bool
  | .operator _ | .identifier => true
  | _ => false

/-- How many operators and names stand among some tokens. -/
def branchings (tokens : List Token) : Nat :=
  tokens.countP (·.kind.branches)

theorem branchings_append (us vs : List Token) :
    branchings (us ++ vs) = branchings us + branchings vs :=
  List.countP_append

theorem branchings_cons (t : Token) (us : List Token) :
    branchings (t :: us) = branchings us + if t.kind.branches then 1 else 0 :=
  List.countP_cons

theorem branchings_cons_of_branches {t : Token} (h : t.kind.branches = true) (us : List Token) :
    branchings (t :: us) = branchings us + 1 :=
  List.countP_cons_of_pos h

namespace Grammar

variable {limit : Nat}

/-! ## The bounds -/

/-! ### By the levels, steps to the right alone -/

mutual

/-- An expression with `n` levels, its own among them, counts at most `n`. -/
theorem Expression.counted_le {depth n : Nat} {us : List Token} {e : Expr} :
    Expression limit depth us e → limit + 1 = depth + n → e.counted ≤ n
  | .additive hdepth h, hn => by
      obtain ⟨m, hm⟩ := Nat.exists_eq_add_of_le hdepth
      have hcounted := h.counted_le hm
      omega

theorem Additive.counted_le {depth k n : Nat} {us : List Token} {e : Expr} :
    Additive limit depth k us e → limit = depth + n → e.counted ≤ n + 1
  | .first h, hn => h.counted_le hn
  | .next hleft _ _ hk hright, hn => by
      obtain ⟨m, hm⟩ := Nat.exists_eq_add_of_le hk
      have hl := hleft.counted_le hn
      have hr := hright.counted_le hm
      rw [Expr.counted]
      omega

theorem Multiplicative.counted_le {depth k n : Nat} {us : List Token} {e : Expr} :
    Multiplicative limit depth k us e → limit = depth + n → e.counted ≤ n + 1
  | .first h, hn => h.counted_le hn
  | .next hleft _ _ hk hright, hn => by
      obtain ⟨m, hm⟩ := Nat.exists_eq_add_of_le hk
      have hl := hleft.counted_le hn
      have hr := hright.counted_le hm
      rw [Expr.counted]
      omega

theorem Unary.counted_le {depth n : Nat} {us : List Token} {e : Expr} :
    Unary limit depth us e → limit = depth + n → e.counted ≤ n + 1
  | .primary h, hn => h.counted_le hn
  | .minus _ hdepth h, hn => by
      obtain ⟨m, hm⟩ := Nat.exists_eq_add_of_le hdepth
      have hcounted := h.counted_le hm
      rw [Expr.counted]
      omega

theorem Primary.counted_le {depth n : Nat} {us : List Token} {e : Expr} :
    Primary limit depth us e → limit = depth + n → e.counted ≤ n + 1
  | .number _, _ => by
      rw [Expr.counted]
      omega
  | .group _ h _, hn => by
      have hcounted := h.counted_le (n := n) (by omega)
      omega
  | .callNone _ _ _, _ => by
      rw [Expr.counted, Expr.countedAll]
      omega
  | .call _ _ h _, hn => by
      have hcounted := h.countedAll_le (n := n) (by omega)
      rw [Expr.counted]
      omega
  | .time _ _, _ => by
      rw [Expr.counted]
      omega

theorem Arguments.countedAll_le {depth n : Nat} {us : List Token} {args : List Expr} :
    Arguments limit depth us args → limit + 1 = depth + n → Expr.countedAll args ≤ n
  | .last h, hn => by
      have hcounted := h.counted_le hn
      rw [Expr.countedAll, Expr.countedAll]
      omega
  | .more h _ hargs, hn => by
      have hcounted := h.counted_le hn
      have hothers := hargs.countedAll_le hn
      rw [Expr.countedAll]
      omega

end

/-! ### By operators and names -/

mutual

/-- Each node above others is brought in by a token of its own. -/
theorem Expression.height_le_branchings {depth : Nat} {us : List Token} {e : Expr} :
    Expression limit depth us e → e.height ≤ branchings us + 1
  | .additive _ h => h.height_le_branchings

theorem Additive.height_le_branchings {depth k : Nat} {us : List Token} {e : Expr} :
    Additive limit depth k us e → e.height ≤ branchings us + 1
  | .first h => h.height_le_branchings
  | .next hleft hkind _ _ hright => by
      have hl := hleft.height_le_branchings
      have hr := hright.height_le_branchings
      rw [Expr.height, branchings_append, branchings_cons_of_branches (by rw [hkind]; rfl)]
      omega

theorem Multiplicative.height_le_branchings {depth k : Nat} {us : List Token} {e : Expr} :
    Multiplicative limit depth k us e → e.height ≤ branchings us + 1
  | .first h => h.height_le_branchings
  | .next hleft hkind _ _ hright => by
      have hl := hleft.height_le_branchings
      have hr := hright.height_le_branchings
      rw [Expr.height, branchings_append, branchings_cons_of_branches (by rw [hkind]; rfl)]
      omega

theorem Unary.height_le_branchings {depth : Nat} {us : List Token} {e : Expr} :
    Unary limit depth us e → e.height ≤ branchings us + 1
  | .primary h => h.height_le_branchings
  | .minus hkind _ h => by
      have hoperand := h.height_le_branchings
      rw [Expr.height, branchings_cons_of_branches (by rw [hkind]; rfl)]
      omega

theorem Primary.height_le_branchings {depth : Nat} {us : List Token} {e : Expr} :
    Primary limit depth us e → e.height ≤ branchings us + 1
  | .number _ => by
      rw [Expr.height]
      omega
  | .group _ h _ => by
      have hinner := h.height_le_branchings
      rw [branchings_cons, branchings_append]
      omega
  | .callNone _ _ _ => by
      rw [Expr.height, Expr.heights]
      omega
  | .call hname _ h _ => by
      have hargs := h.heights_le_branchings
      rw [Expr.height, branchings_cons_of_branches (by rw [hname]; rfl), branchings_cons,
        branchings_append]
      omega
  | .time _ _ => by
      rw [Expr.height]
      omega

theorem Arguments.heights_le_branchings {depth : Nat} {us : List Token} {args : List Expr} :
    Arguments limit depth us args → Expr.heights args ≤ branchings us + 1
  | .last h => by
      have hheight := h.height_le_branchings
      rw [Expr.heights, Expr.heights]
      omega
  | .more h _ hargs => by
      have hheight := h.height_le_branchings
      have hothers := hargs.heights_le_branchings
      rw [Expr.heights, branchings_append, branchings_cons]
      omega

end

/-! ### By the square of the levels -/

theorem Multiplicative.count_le {depth k : Nat} {us : List Token} {e : Expr} :
    Multiplicative limit depth k us e → depth ≤ limit → depth + k ≤ limit
  | .first _, hdepth => hdepth
  | .next _ _ _ hk _, _ => hk

theorem Additive.count_le {depth k : Nat} {us : List Token} {e : Expr} :
    Additive limit depth k us e → depth ≤ limit → depth + k ≤ limit
  | .first _, hdepth => hdepth
  | .next _ _ _ hk _, _ => hk

mutual

/-- An expression with `n` levels, its own among them, has height at most `n ^ 2`. -/
theorem Expression.height_le {depth n : Nat} {us : List Token} {e : Expr} :
    Expression limit depth us e → limit + 1 = depth + n → e.height ≤ n ^ 2
  | .additive hdepth h, hn => by
      obtain ⟨m, hm⟩ := Nat.exists_eq_add_of_le hdepth
      have hcount := h.count_le hdepth
      have hheight := h.height_le hm
      have hlevels : n = m + 1 := by omega
      rw [hlevels, square_succ]
      omega

/-- The sum of `k` operators around products adds `k`. -/
theorem Additive.height_le {depth k n : Nat} {us : List Token} {e : Expr} :
    Additive limit depth k us e → limit = depth + n → e.height ≤ n ^ 2 + 1 + n + k
  | .first h, hn => by
      have hcount := h.count_le (by omega)
      have hheight := h.height_le hn
      omega
  | .next (k := k) hleft _ _ hk hright, hn => by
      obtain ⟨m, hm⟩ := Nat.exists_eq_add_of_le hk
      have hcount := hright.count_le hk
      have hl := hleft.height_le hn
      have hr := hright.height_le hm
      have hsquare : m ^ 2 ≤ n ^ 2 := square_le (by omega)
      rw [Expr.height]
      omega

/-- The product of `k` operators around operands adds `k`. -/
theorem Multiplicative.height_le {depth k n : Nat} {us : List Token} {e : Expr} :
    Multiplicative limit depth k us e → limit = depth + n → e.height ≤ n ^ 2 + 1 + k
  | .first h, hn => h.height_le hn
  | .next (k := k) hleft _ _ hk hright, hn => by
      obtain ⟨m, hm⟩ := Nat.exists_eq_add_of_le hk
      have hl := hleft.height_le hn
      have hr := hright.height_le hm
      have hsquare : m ^ 2 ≤ n ^ 2 := square_le (by omega)
      rw [Expr.height]
      omega

/-- A minus sign uses up a level and adds one to the height, which is less than a level gives. -/
theorem Unary.height_le {depth n : Nat} {us : List Token} {e : Expr} :
    Unary limit depth us e → limit = depth + n → e.height ≤ n ^ 2 + 1
  | .primary h, hn => h.height_le hn
  | .minus _ hdepth h, hn => by
      obtain ⟨m, hm⟩ := Nat.exists_eq_add_of_le hdepth
      have hheight := h.height_le hm
      have hlevels : n = m + 1 := by omega
      rw [Expr.height, hlevels, square_succ]
      omega

/-- Only a call puts a node above an expression that stands one level deeper. -/
theorem Primary.height_le {depth n : Nat} {us : List Token} {e : Expr} :
    Primary limit depth us e → limit = depth + n → e.height ≤ n ^ 2 + 1
  | .number _, _ => by
      rw [Expr.height]
      omega
  | .group _ h _, hn => by
      have hheight := h.height_le (n := n) (by omega)
      omega
  | .callNone _ _ _, _ => by
      rw [Expr.height, Expr.heights]
      omega
  | .call _ _ h _, hn => by
      have hheights := h.heights_le (n := n) (by omega)
      rw [Expr.height]
      omega
  | .time _ _, _ => by
      rw [Expr.height]
      omega

/-- No argument with `n` levels, its own among them, is higher than `n ^ 2`. -/
theorem Arguments.heights_le {depth n : Nat} {us : List Token} {args : List Expr} :
    Arguments limit depth us args → limit + 1 = depth + n → Expr.heights args ≤ n ^ 2
  | .last h, hn => by
      have hheight := h.height_le hn
      rw [Expr.heights, Expr.heights]
      omega
  | .more h _ hargs, hn => by
      have hheight := h.height_le hn
      have hheights := hargs.heights_le hn
      rw [Expr.heights]
      omega

end

end Grammar

/-! ## Reaching the bound -/

/-- Puts `k` operators behind a phrase, each with the number one as its right operand. -/
def chainTokens (symbol : Operator) (us : List Token) : Nat → List Token
  | 0 => us
  | k + 1 => chainTokens symbol us k ++ ⟨.operator symbol, "", 0⟩ :: [⟨.number 1.0, "1", 0⟩]

/-- The tree of a chain of `k` operators whose first operand is given. -/
def Expr.chain (op : BinaryOp) (e : Expr) : Nat → Expr
  | 0 => e
  | k + 1 => .binary op (Expr.chain op e k) (.number 1.0 0) 0

/-- Chains in a call in chains in a call, as long as `n` further levels allow. -/
def tallTokens : Nat → List Token
  | 0 => [⟨.number 1.0, "1", 0⟩]
  | n + 1 =>
    chainTokens .plus (chainTokens .star
      (⟨.identifier, "f", 0⟩ :: ⟨.leftParen, "(", 0⟩ :: (tallTokens n ++ [⟨.rightParen, ")", 0⟩]))
      (n + 1)) (n + 1)

/-- The tree of `tallTokens`. -/
def Expr.tall : Nat → Expr
  | 0 => .number 1.0 0
  | n + 1 => ((Expr.call "f" [Expr.tall n] 0).chain .mul (n + 1)).chain .add (n + 1)

theorem Expr.height_chain (op : BinaryOp) (e : Expr) (k : Nat) :
    (e.chain op k).height = e.height + k := by
  induction k with
  | zero => rfl
  | succ k ih =>
      have hpos := e.height_pos
      rw [Expr.chain, Expr.height, ih, Expr.height]
      omega

theorem Expr.height_tall (n : Nat) : (Expr.tall n).height = (n + 1) ^ 2 := by
  induction n with
  | zero => rfl
  | succ n ih =>
      rw [Expr.tall, Expr.height_chain, Expr.height_chain, Expr.height, Expr.heights, Expr.heights,
        ih, square_succ (n + 1)]
      omega

theorem not_eof_of_mem_number (value : Float) (text : String) (offset : Nat) :
    ∀ t ∈ [(⟨.number value, text, offset⟩ : Token)], t.kind ≠ .eof := by
  intro t ht
  rw [List.mem_singleton.1 ht]
  nofun

theorem not_eof_of_mem_chainTokens {symbol : Operator} {us : List Token}
    (hus : ∀ t ∈ us, t.kind ≠ .eof) (k : Nat) :
    ∀ t ∈ chainTokens symbol us k, t.kind ≠ .eof := by
  induction k with
  | zero => exact hus
  | succ k ih =>
      intro t ht
      rcases List.mem_append.1 ht with ht | ht
      · exact ih t ht
      · simp only [List.mem_cons, List.not_mem_nil, or_false] at ht
        rcases ht with rfl | rfl <;> nofun

theorem not_eof_of_mem_tallTokens (n : Nat) : ∀ t ∈ tallTokens n, t.kind ≠ .eof := by
  induction n with
  | zero => exact not_eof_of_mem_number 1.0 "1" 0
  | succ n ih =>
      refine not_eof_of_mem_chainTokens (not_eof_of_mem_chainTokens ?_ _) _
      intro t ht
      simp only [List.mem_cons, List.mem_append, List.not_mem_nil, or_false] at ht
      rcases ht with rfl | rfl | ht | rfl
      · nofun
      · nofun
      · exact ih t ht
      · nofun

namespace Grammar

variable {limit depth : Nat} {us : List Token} {e : Expr}

theorem Unary.chain (h : Unary limit depth us e) {k : Nat} (hk : depth + k ≤ limit) :
    Multiplicative limit depth k (chainTokens .star us k) (e.chain .mul k) := by
  induction k with
  | zero => exact .first h
  | succ k ih =>
      have hleft := ih (by omega)
      exact .next (t := ⟨.operator .star, "", 0⟩) hleft rfl rfl hk
        (.primary (.number (t := ⟨.number 1.0, "1", 0⟩) rfl))

theorem Multiplicative.chain {j : Nat} (h : Multiplicative limit depth j us e) {k : Nat}
    (hk : depth + k ≤ limit) :
    Additive limit depth k (chainTokens .plus us k) (e.chain .add k) := by
  induction k with
  | zero => exact .first h
  | succ k ih =>
      have hleft := ih (by omega)
      exact .next (t := ⟨.operator .plus, "", 0⟩) hleft rfl rfl hk
        (.first (.primary (.number (t := ⟨.number 1.0, "1", 0⟩) rfl)))

theorem expression_tall {depth n : Nat} (hn : limit = depth + n) :
    Expression limit depth (tallTokens n) (Expr.tall n) := by
  induction n generalizing depth with
  | zero =>
      have hnumber : Primary limit depth (tallTokens 0) (Expr.tall 0) :=
        .number (t := ⟨.number 1.0, "1", 0⟩) rfl
      exact .additive (by omega) (.first (.first (.primary hnumber)))
  | succ n ih =>
      have hinner : Expression limit (depth + 1) (tallTokens n) (Expr.tall n) := ih (by omega)
      have hcall : Primary limit depth
          (⟨.identifier, "f", 0⟩ :: ⟨.leftParen, "(", 0⟩ ::
            (tallTokens n ++ [⟨.rightParen, ")", 0⟩]))
          (.call "f" [Expr.tall n] 0) :=
        .call rfl rfl (.last hinner) rfl
      have hproduct := (Unary.primary hcall).chain (k := n + 1) (by omega)
      exact .additive (by omega) (hproduct.chain (k := n + 1) (by omega))

end Grammar

/-! ## Minus signs -/

/-- Puts `n` minus signs in front of a phrase, the first of them at an offset. -/
def minusTokens (us : List Token) : (offset n : Nat) → List Token
  | _, 0 => us
  | offset, n + 1 => ⟨.operator .minus, "-", offset⟩ :: minusTokens us (offset + 1) n

/-- The tree of `n` minus signs in front of an operand. -/
def Expr.negations (e : Expr) : (offset n : Nat) → Expr
  | _, 0 => e
  | offset, n + 1 => .negate (Expr.negations e (offset + 1) n) offset

theorem Expr.height_negations (e : Expr) (offset n : Nat) :
    (e.negations offset n).height = e.height + n := by
  induction n generalizing offset with
  | zero => rfl
  | succ n ih =>
      rw [Expr.negations, Expr.height, ih]
      omega

theorem Expr.leansRight_negations {e : Expr} (h : e.LeansRight) (offset n : Nat) :
    (e.negations offset n).LeansRight := by
  induction n generalizing offset with
  | zero => exact h
  | succ n ih =>
      rw [Expr.negations, Expr.LeansRight]
      exact ih (offset + 1)

theorem Grammar.Unary.negations {limit n : Nat} {us : List Token} {e : Expr}
    {depth : Nat} (offset : Nat) (h : Unary limit (depth + n) us e) (hn : depth + n ≤ limit) :
    Unary limit depth (minusTokens us offset n) (e.negations offset n) := by
  induction n generalizing depth offset with
  | zero => exact h
  | succ n ih =>
      have hnext : Unary limit (depth + 1 + n) us e := by
        rwa [show depth + 1 + n = depth + (n + 1) by omega]
      exact .minus (t := ⟨.operator .minus, "-", offset⟩) rfl (by omega)
        (ih (offset + 1) hnext (by omega))

theorem not_eof_of_mem_minusTokens {us : List Token} (hus : ∀ t ∈ us, t.kind ≠ .eof)
    (offset n : Nat) : ∀ t ∈ minusTokens us offset n, t.kind ≠ .eof := by
  induction n generalizing offset with
  | zero => exact hus
  | succ n ih =>
      intro t ht
      rcases List.mem_cons.1 ht with rfl | ht
      · nofun
      · exact ih (offset + 1) t ht

/-! ## Whole token lists -/

/-- A phrase within the limit is parsed, whatever stands behind its end of input. -/
theorem Expr.parse_of_expression {us behind : List Token} {e : Expr}
    (h : Grammar.Expression maxDepth 1 us e) (hus : ∀ t ∈ us, t.kind ≠ .eof)
    (hbehind : ∀ t ∈ behind.head?, t.kind = .eof) : Expr.parse (us ++ behind) = .ok e := by
  have hnone : behind.takeWhile (·.kind ≠ .eof) = [] := by
    cases behind with
    | nil => rfl
    | cons t rest => simp [hbehind t rfl]
  have htake : (us ++ behind).takeWhile (·.kind ≠ .eof) = us := by
    rw [List.takeWhile_append_of_pos (by simpa using hus), hnone, List.append_nil]
  rw [Expr.parse_eq_ok_iff_expressionAt, htake]
  exact (Grammar.expression_iff_expressionAt _).1 h

theorem Expr.expression_of_parse {tokens : List Token} {e : Expr}
    (h : Expr.parse tokens = .ok e) :
    Grammar.Expression maxDepth 1 (tokens.takeWhile (·.kind ≠ .eof)) e :=
  (Grammar.expression_iff_expressionAt _).2 (Expr.parse_eq_ok_iff_expressionAt.1 h)

/-- What the depth limit bounds in a parsed tree: the height without the steps that go to a left
operand, and by its square the height.  The height itself is within the limit where no left operand
is higher than the right one, and where there are fewer operators and names than the limit. -/
theorem Expr.height_of_parse {tokens : List Token} {e : Expr} (h : Expr.parse tokens = .ok e) :
    e.counted ≤ maxDepth ∧ e.height ≤ maxDepth ^ 2 ∧
      (e.LeansRight ∨ branchings tokens < maxDepth → e.height ≤ maxDepth) := by
  have hphrase := Expr.expression_of_parse h
  have hcounted : e.counted ≤ maxDepth := hphrase.counted_le (Nat.add_comm _ _)
  refine ⟨hcounted, hphrase.height_le (Nat.add_comm _ _), ?_⟩
  rintro (hleans | hfew)
  · rw [← Expr.counted_eq_height hleans]
    exact hcounted
  · have hheight := hphrase.height_le_branchings
    have hread : branchings (tokens.takeWhile (·.kind ≠ .eof)) ≤ branchings tokens :=
      (List.takeWhile_sublist _).countP_le
    omega

/-- A number behind 255 minus signs is a tree as high as the limit. -/
theorem Expr.height_of_parse_minuses :
    let one : Token := ⟨.number 1.0, "1", 255⟩
    let e := Expr.negations (.number 1.0 255) 0 255
    Expr.parse (minusTokens [one] 0 255 ++ [⟨.eof, "", 256⟩]) = .ok e ∧ e.LeansRight ∧
      e.height ≤ maxDepth ∧ e.height = 256 := by
  intro one e
  have hone : Grammar.Unary maxDepth 256 [one] (.number 1.0 255) :=
    .primary (.number (t := one) rfl)
  have hminuses : Grammar.Unary maxDepth 1 (minusTokens [one] 0 255) e :=
    .negations 0 hone (by decide)
  have hnoteof := not_eof_of_mem_minusTokens (not_eof_of_mem_number 1.0 "1" 255) 0 255
  have hparse : Expr.parse (minusTokens [one] 0 255 ++ [⟨.eof, "", 256⟩]) = .ok e := by
    refine Expr.parse_of_expression (.additive (by decide) (.first (.first hminuses))) hnoteof ?_
    intro t ht
    cases ht
    rfl
  have hleaf : (Expr.number 1.0 255).LeansRight := by
    rw [Expr.LeansRight]
    trivial
  have hleans : e.LeansRight := Expr.leansRight_negations hleaf 0 255
  obtain ⟨-, -, hheight⟩ := Expr.height_of_parse hparse
  exact ⟨hparse, hleans, hheight (.inl hleans), Expr.height_negations _ 0 255⟩

theorem Expr.parse_tallTokens : Expr.parse (tallTokens 255) = .ok (Expr.tall 255) := by
  have hphrase : Grammar.Expression maxDepth 1 (tallTokens 255) (Expr.tall 255) :=
    Grammar.expression_tall rfl
  rw [← List.append_nil (tallTokens 255)]
  exact Expr.parse_of_expression hphrase (not_eof_of_mem_tallTokens 255) nofun

/-- The greatest height of a parsed tree is the square of the depth limit. -/
theorem Expr.greatest_height_of_parse :
    (∀ tokens e, Expr.parse tokens = .ok e → e.height ≤ maxDepth ^ 2) ∧
      ∃ tokens e, Expr.parse tokens = .ok e ∧ e.height = maxDepth ^ 2 := by
  refine ⟨?_, tallTokens 255, Expr.tall 255, Expr.parse_tallTokens, Expr.height_tall 255⟩
  intro tokens e h
  exact (Expr.expression_of_parse h).height_le (Nat.add_comm _ _)

/-- The source of 255 minus signs and `1 + 1` is parsed to a tree higher than the depth limit.  The
sum stands above all minus signs, although it is read behind them and counted from the depth at
which they begin. -/
theorem Expr.parse_minuses_higher_than_maxDepth :
    let number offset : Token := ⟨.number 1.0, "1", offset⟩
    let plus : Token := ⟨.operator .plus, "+", 256⟩
    let tokens := minusTokens [number 255] 0 255 ++ plus :: [number 257] ++ [⟨.eof, "", 258⟩]
    let e := Expr.binary .add (.negations (.number 1.0 255) 0 255) (.number 1.0 257) 256
    Expr.parse tokens = .ok e ∧ e.height = 257 := by
  intro number plus tokens e
  have hnumber : ∀ depth offset, Grammar.Unary maxDepth depth [number offset]
      (.number 1.0 offset) :=
    fun depth offset => .primary (.number (t := number offset) rfl)
  have hminus : Grammar.Unary maxDepth 1 (minusTokens [number 255] 0 255)
      (.negations (.number 1.0 255) 0 255) :=
    .negations 0 (hnumber _ 255) (by decide)
  have hsum : Grammar.Additive maxDepth 1 1 (minusTokens [number 255] 0 255 ++ plus :: [number 257])
      e :=
    .next (t := plus) (.first (.first hminus)) rfl rfl (by decide) (.first (hnumber _ 257))
  refine ⟨Expr.parse_of_expression (.additive (by decide) hsum) ?_ ?_, ?_⟩
  · intro t ht
    rcases List.mem_append.1 ht with ht | ht
    · exact not_eof_of_mem_minusTokens (not_eof_of_mem_number 1.0 "1" 255) 0 255 t ht
    · simp only [List.mem_cons, List.not_mem_nil, or_false] at ht
      rcases ht with rfl | rfl <;> nofun
  · intro t ht
    cases ht
    rfl
  · have hheight := Expr.height_negations (.number 1.0 255) 0 255
    rw [Expr.height, hheight]
    rfl

end ToneGraph
