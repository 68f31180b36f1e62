import ToneGraph.Proofs.Expr.Halt
/-!
# Every refusal is a halt

If a reader refuses its tokens, it has read whole phrases up to a place where one of the rules of
`ToneGraph.Proofs.Expr.Halt` cuts a phrase off.  The argument climbs as that for what is read: from
the arguments of a call to a whole expression, once for each token count, with one lemma for the two
chain readers.

Both directions together say what the error of a token list is, without running the readers.

## Main statements

* `Grammar.halts_of_expressionAt`: an expression that is refused halts.
* `Expr.parse_eq_error_iff`: a token list is refused exactly if it halts somewhere, and with which
  error.
-/

namespace ToneGraph

namespace Grammar

/-! ## Every refusal is a halt -/

/-- Expressions of fewer than `n` tokens that are refused halt. -/
def HaltsBelow (n : Nat) : Prop :=
  ∀ {ctx : Context} {depth : Nat} {tokens : List Token} {why : SyntaxError}, tokens.length < n →
    expressionAt ctx depth tokens = .error why →
    ∃ us rest halt, tokens = us ++ rest ∧
      ExpressionHalts maxDepth (depth + 1) us (ctx.upcoming rest) halt

private theorem eq_of_bareName_error {t : Token} {rest : List Token} {why : SyntaxError}
    (h : bareName t rest = .error why) : t.text ≠ "time" := by
  unfold bareName at h
  split at h
  · contradiction
  · next htime => exact htime

section

variable {n : Nat} {ctx : Context}

/-- Arguments that are refused halt. -/
theorem halts_of_argumentListAt (halts : HaltsBelow n) {depth : Nat} {tokens : List Token}
    {why : SyntaxError} (hlen : tokens.length < n)
    (h : argumentListAt ctx depth tokens = .error why) :
    ∃ us rest halt, tokens = us ++ rest ∧
      ArgumentsHalts maxDepth (depth + 1) us (ctx.upcoming rest) halt := by
  rw [argumentListAt_eq] at h
  rcases bind_eq_error_iff.1 h with hfirst | ⟨⟨first, behind⟩, hfirst, hmore⟩
  · obtain ⟨us, rest, halt, htokens, hhalt⟩ := halts hlen hfirst
    exact ⟨us, rest, halt, htokens, .last hhalt⟩
  · obtain ⟨us, rfl, hus, hends⟩ := expression_of_expressionAt hfirst
    have hstop := (endsSum_upcoming_iff ctx us behind).2 hends
    cases behind with
    | nil => exact ⟨us, [], .closing, rfl, .closing hus hstop nofun nofun⟩
    | cons t more =>
        dsimp only at hmore
        split at hmore
        · next hcomma =>
            have hshort : more.length < (us ++ t :: more).length := by
              rw [List.length_append, List.length_cons]
              omega
            rcases bind_eq_error_iff.1 hmore with hothers | ⟨_, _, hok⟩
            · obtain ⟨vs, rest, halt, rfl, hhalt⟩ :=
                halts_of_argumentListAt halts (Nat.lt_trans hshort hlen) hothers
              refine ⟨us ++ t :: vs, rest, halt, ?_, .more hus hcomma hhalt⟩
              rw [List.append_assoc, List.cons_append]
            · contradiction
        · next hcomma =>
            rcases bind_eq_error_iff.1 hmore with hclose | ⟨_, _, hok⟩
            · exact ⟨us, t :: more, .closing, rfl,
                .closing hus hstop hcomma (close_eq_error hclose)⟩
            · contradiction
termination_by tokens.length

/-- A call that is refused behind its opening parenthesis halts among its arguments. -/
theorem halts_of_argumentsAt (halts : HaltsBelow n) {depth : Nat} {tokens : List Token}
    {why : SyntaxError} (hlen : tokens.length < n)
    (h : argumentsAt ctx depth tokens = .error why) :
    ∃ us rest halt, tokens = us ++ rest ∧
      (∀ t ∈ (us ++ [ctx.upcoming rest]).head?, t.kind ≠ .rightParen) ∧
      ArgumentsHalts maxDepth (depth + 1) us (ctx.upcoming rest) halt := by
  cases tokens with
  | nil =>
      rw [argumentsAt_nil] at h
      obtain ⟨us, rest, halt, htokens, hhalt⟩ := halts_of_argumentListAt halts hlen h
      obtain ⟨rfl, rfl⟩ := List.append_eq_nil_iff.1 htokens.symm
      refine ⟨[], [], halt, rfl, ?_, hhalt⟩
      intro t ht
      cases ht
      nofun
  | cons t more =>
      rw [argumentsAt_cons] at h
      split at h
      · contradiction
      · next hclose =>
          obtain ⟨us, rest, halt, htokens, hhalt⟩ := halts_of_argumentListAt halts hlen h
          refine ⟨us, rest, halt, htokens, ?_, hhalt⟩
          intro u hu
          rw [head?_append_upcoming htokens.symm] at hu
          cases hu
          exact hclose

/-- A primary that is refused halts, unless it begins with a minus sign. -/
theorem halts_of_primaryAt (halts : HaltsBelow n) {depth : Nat} {t : Token} {tokens : List Token}
    {why : SyntaxError} (hlen : tokens.length < n) (hminus : t.kind ≠ .operator .minus)
    (h : primaryAt ctx depth (t :: tokens) = .error why) :
    ∃ us rest halt, t :: tokens = us ++ rest ∧
      PrimaryHalts maxDepth depth us (ctx.upcoming rest) halt := by
  rw [primaryAt_cons] at h
  split at h
  · contradiction
  · next hopen =>
      have hnext := ctx.upcoming_opened (some t.offset)
      rcases bind_eq_error_iff.1 h with hinside | ⟨⟨e, behind⟩, hinside, hmore⟩
      · obtain ⟨us, rest, halt, rfl, hhalt⟩ := halts hlen hinside
        rw [hnext] at hhalt
        exact ⟨t :: us, rest, halt, rfl, .group hopen hhalt⟩
      · obtain ⟨us, rfl, hus, hends⟩ := expression_of_expressionAt hinside
        have hstop := (endsSum_upcoming_iff ctx us behind).2 hends
        rcases bind_eq_error_iff.1 hmore with hclose | ⟨_, _, hok⟩
        · have hnot := close_eq_error hclose
          rw [hnext] at hnot
          exact ⟨t :: us, behind, .closing, rfl, .closing hopen hus hstop hnot⟩
        · contradiction
  · next hname =>
      cases tokens with
      | nil =>
          have hparen : (ctx.upcoming []).kind ≠ .leftParen := TokenKind.noConfusion
          exact ⟨[t], [], .call t, rfl, .name hname (eq_of_bareName_error h) hparen⟩
      | cons opening inside =>
          dsimp only at h
          split at h
          · next hopen =>
              have hnext := ctx.upcoming_opened (some opening.offset)
              rcases bind_eq_error_iff.1 h with hargs | ⟨_, _, hok⟩
              · obtain ⟨us, rest, halt, rfl, hhead, hhalt⟩ :=
                  halts_of_argumentsAt halts (Nat.lt_of_succ_lt hlen) hargs
                rw [hnext] at hhead hhalt
                exact ⟨t :: opening :: us, rest, halt, rfl, .call hname hopen hhead hhalt⟩
              · contradiction
          · next hparen =>
              exact ⟨[t], opening :: inside, .call t, rfl,
                .name hname (eq_of_bareName_error h) hparen⟩
  all_goals
    refine ⟨[], t :: tokens, .operand, rfl, .operand ?_⟩
    show t.kind.startsExpression = false
    cases hkind : t.kind <;>
      first | rfl | simp_all [TokenKind.startsExpression, TokenKind.startsPrimary]

/-- An operand of a product that is refused halts. -/
theorem halts_of_unaryAt (halts : HaltsBelow n) {depth : Nat} {tokens : List Token}
    {why : SyntaxError} (hlen : tokens.length ≤ n) (h : unaryAt ctx depth tokens = .error why) :
    ∃ us rest halt, tokens = us ++ rest ∧
      UnaryHalts maxDepth depth us (ctx.upcoming rest) halt := by
  induction tokens generalizing depth with
  | nil => exact ⟨[], [], .operand, rfl, .primary (.operand rfl)⟩
  | cons t more ih =>
      rw [unaryAt_cons] at h
      split at h
      · next hkind =>
          rcases bind_eq_error_iff.1 h with hdeep | ⟨inner, hinner, hmore⟩
          · have hdepth := Nat.lt_succ_of_le (descend_eq_error hdeep)
            exact ⟨[t], more, .level t, rfl, .level hkind hdepth⟩
          · obtain ⟨hdepth, rfl⟩ := descend_eq_ok_iff.1 hinner
            rcases bind_eq_error_iff.1 hmore with hoperand | ⟨_, _, hok⟩
            · obtain ⟨us, rest, halt, rfl, hhalt⟩ := ih (Nat.le_of_succ_le hlen) hoperand
              exact ⟨t :: us, rest, halt, rfl, .minus hkind hdepth hhalt⟩
            · contradiction
      · next hminus =>
          obtain ⟨us, rest, halt, htokens, hhalt⟩ := halts_of_primaryAt halts hlen hminus h
          exact ⟨us, rest, halt, htokens, .primary hhalt⟩

/-- A chain reader that is refused has read a chain and stopped at the operator behind it or in the
operand behind that, for both chains at once. -/
theorem halts_of_tail {op? : Token → Option BinaryOp}
    {operandAt : Nat → List Token → Except SyntaxError (Expr × List Token)}
    {tailAt : Nat → Expr → List Token → Except SyntaxError (Expr × List Token)}
    {Operand : Nat → List Token → Expr → Prop}
    {OperandHalts : Nat → List Token → Token → Halt → Prop} {depth : Nat}
    (Chain : Nat → List Token → Expr → Prop) (ChainHalts : List Token → Token → Halt → Prop)
    (hnil : ∀ d left, tailAt d left [] = .ok (left, []))
    (hcons : ∀ d left t more, tailAt d left (t :: more) =
      match op? t with
      | none => .ok (left, t :: more)
      | some op => (do
        let inner ← descend d t.offset
        let (right, behind) ← operandAt inner more
        tailAt inner (.binary op left right t.offset) behind))
    (hoperand : ∀ {d tokens right behind}, tokens.length ≤ n →
      operandAt d tokens = .ok (right, behind) → ∃ ws, tokens = ws ++ behind ∧ Operand d ws right)
    (hrefused : ∀ {d tokens why}, tokens.length ≤ n → operandAt d tokens = .error why →
      ∃ ws rest halt, tokens = ws ++ rest ∧ OperandHalts d ws (ctx.upcoming rest) halt)
    (hnext : ∀ {k us t op ws left right}, Chain k us left → op? t = some op →
      depth + k < maxDepth → Operand (depth + (k + 1)) ws right →
      Chain (k + 1) (us ++ t :: ws) (.binary op left right t.offset))
    (hlevel : ∀ {k us t op next left}, Chain k us left → op? t = some op → maxDepth ≤ depth + k →
      ChainHalts (us ++ [t]) next (.level t))
    (hinside : ∀ {k us t op ws next halt left}, Chain k us left → op? t = some op →
      depth + k < maxDepth → OperandHalts (depth + (k + 1)) ws next halt →
      ChainHalts (us ++ t :: ws) next halt)
    {k : Nat} {us tokens : List Token} {left : Expr} {why : SyntaxError}
    (hlen : tokens.length ≤ n) (hleft : Chain k us left)
    (h : tailAt (depth + k) left tokens = .error why) :
    ∃ vs rest halt, tokens = vs ++ rest ∧ ChainHalts (us ++ vs) (ctx.upcoming rest) halt := by
  induction hcount : tokens.length using Nat.strongRecOn generalizing k us tokens left with
  | _ count ih =>
      subst hcount
      cases tokens with
      | nil =>
          rw [hnil] at h
          contradiction
      | cons t more =>
          rw [hcons] at h
          split at h
          · contradiction
          · next op hop =>
              replace hlen : more.length ≤ n := Nat.le_of_succ_le hlen
              rcases bind_eq_error_iff.1 h with hdeep | ⟨inner, hinner, hread⟩
              · exact ⟨[t], more, .level t, rfl, hlevel hleft hop (descend_eq_error hdeep)⟩
              obtain ⟨hdepth, rfl⟩ := descend_eq_ok_iff.1 hinner
              rcases bind_eq_error_iff.1 hread with hright | ⟨⟨right, behind⟩, hright, htail⟩
              · obtain ⟨ws, rest, halt, rfl, hhalt⟩ := hrefused hlen hright
                exact ⟨t :: ws, rest, halt, rfl, hinside hleft hop hdepth hhalt⟩
              obtain ⟨ws, hmore, hws⟩ := hoperand hlen hright
              have hshort : behind.length ≤ more.length := by
                rw [hmore, List.length_append]
                exact Nat.le_add_left _ _
              obtain ⟨vs, rest, halt, hsplit, hhalt⟩ := ih behind.length
                (Nat.lt_succ_of_le hshort) (Nat.le_trans hshort hlen)
                (hnext hleft hop hdepth hws) htail rfl
              refine ⟨t :: (ws ++ vs), rest, halt, ?_, ?_⟩
              · rw [hmore, hsplit, List.cons_append, List.append_assoc]
              · simpa only [List.append_assoc, List.cons_append] using hhalt

/-- A product that is refused halts. -/
theorem halts_of_productAt (halts : HaltsBelow n) {depth : Nat} {tokens : List Token}
    {why : SyntaxError} (hlen : tokens.length ≤ n) (h : productAt ctx depth tokens = .error why) :
    ∃ us rest halt, tokens = us ++ rest ∧
      MultiplicativeHalts maxDepth depth us (ctx.upcoming rest) halt := by
  rw [productAt_eq] at h
  rcases bind_eq_error_iff.1 h with hfirst | ⟨⟨first, behind⟩, hfirst, htail⟩
  · obtain ⟨us, rest, halt, htokens, hhalt⟩ := halts_of_unaryAt halts hlen hfirst
    exact ⟨us, rest, halt, htokens, .first hhalt⟩
  obtain ⟨us, rfl, hus, -⟩ := unary_of_unaryAt (soundBelow n) hlen hfirst
  have hshort : behind.length ≤ n := by
    rw [List.length_append] at hlen
    omega
  have hoperand : ∀ {d tokens right behind}, tokens.length ≤ n →
      unaryAt ctx d tokens = .ok (right, behind) →
      ∃ ws, tokens = ws ++ behind ∧ Unary maxDepth d ws right := by
    intro d tokens right behind hlen hright
    obtain ⟨ws, htokens, hws, -⟩ := unary_of_unaryAt (soundBelow n) hlen hright
    exact ⟨ws, htokens, hws⟩
  obtain ⟨vs, rest, halt, rfl, hhalt⟩ := halts_of_tail
    (Multiplicative maxDepth depth) (MultiplicativeHalts maxDepth depth)
    (productTailAt_nil ctx) (productTailAt_cons ctx) hoperand (halts_of_unaryAt halts)
    (fun hleft hop hdepth hws =>
      let ⟨hkind, hmul⟩ := multiplicativeOp?_eq_some_iff.1 hop
      .next hleft hkind hmul hdepth hws)
    (fun hleft hop hdepth =>
      let ⟨hkind, hmul⟩ := multiplicativeOp?_eq_some_iff.1 hop
      .level hleft hkind hmul (Nat.lt_succ_of_le hdepth))
    (fun hleft hop hdepth hhalt =>
      let ⟨hkind, hmul⟩ := multiplicativeOp?_eq_some_iff.1 hop
      .next hleft hkind hmul hdepth hhalt)
    (k := 0) hshort (.first hus) htail
  exact ⟨us ++ vs, rest, halt, (List.append_assoc us vs rest).symm, hhalt⟩

/-- A sum that is refused halts. -/
theorem halts_of_sumAt (halts : HaltsBelow n) {depth : Nat} {tokens : List Token}
    {why : SyntaxError} (hlen : tokens.length ≤ n) (h : sumAt ctx depth tokens = .error why) :
    ∃ us rest halt, tokens = us ++ rest ∧
      AdditiveHalts maxDepth depth us (ctx.upcoming rest) halt := by
  rcases bind_eq_error_iff.1 h with hfirst | ⟨⟨first, behind⟩, hfirst, htail⟩
  · obtain ⟨us, rest, halt, htokens, hhalt⟩ := halts_of_productAt halts hlen hfirst
    exact ⟨us, rest, halt, htokens, .first hhalt⟩
  obtain ⟨us, j, rfl, hus, -⟩ := multiplicative_of_productAt (soundBelow n) hlen hfirst
  have hshort : behind.length ≤ n := by
    rw [List.length_append] at hlen
    omega
  have hoperand : ∀ {d tokens right behind}, tokens.length ≤ n →
      productAt ctx d tokens = .ok (right, behind) →
      ∃ ws, tokens = ws ++ behind ∧ ∃ j, Multiplicative maxDepth d j ws right := by
    intro d tokens right behind hlen hright
    obtain ⟨ws, j, htokens, hws, -⟩ := multiplicative_of_productAt (soundBelow n) hlen hright
    exact ⟨ws, htokens, j, hws⟩
  obtain ⟨vs, rest, halt, rfl, hhalt⟩ := halts_of_tail
    (Additive maxDepth depth) (AdditiveHalts maxDepth depth)
    (sumTailAt_nil ctx) (sumTailAt_cons ctx) hoperand (halts_of_productAt halts)
    (fun hleft hop hdepth ⟨_, hws⟩ =>
      let ⟨hkind, hadd⟩ := additiveOp?_eq_some_iff.1 hop
      .next hleft hkind hadd hdepth hws)
    (fun hleft hop hdepth =>
      let ⟨hkind, hadd⟩ := additiveOp?_eq_some_iff.1 hop
      .level hleft hkind hadd (Nat.lt_succ_of_le hdepth))
    (fun hleft hop hdepth hhalt =>
      let ⟨hkind, hadd⟩ := additiveOp?_eq_some_iff.1 hop
      .next hleft hkind hadd hdepth hhalt)
    (k := 0) hshort (.first hus) htail
  exact ⟨us ++ vs, rest, halt, (List.append_assoc us vs rest).symm, hhalt⟩

end

theorem HaltsBelow.succ {n : Nat} (halts : HaltsBelow n) : HaltsBelow (n + 1) := by
  intro ctx depth tokens why hlen h
  rw [expressionAt_eq] at h
  rcases bind_eq_error_iff.1 h with hdeep | ⟨inner, hinner, hsum⟩
  · exact ⟨[], tokens, _, rfl, .level (Nat.lt_succ_of_le (descend_eq_error hdeep))⟩
  · obtain ⟨hdepth, rfl⟩ := descend_eq_ok_iff.1 hinner
    obtain ⟨us, rest, halt, htokens, hhalt⟩ := halts_of_sumAt halts (Nat.le_of_lt_succ hlen) hsum
    exact ⟨us, rest, halt, htokens, .additive hdepth hhalt⟩

theorem haltsBelow (n : Nat) : HaltsBelow n := by
  induction n with
  | zero => exact fun hlen _ => absurd hlen (Nat.not_lt_zero _)
  | succ n ih => exact ih.succ

/-- An expression that is refused halts. -/
theorem halts_of_expressionAt {ctx : Context} {depth : Nat} {tokens : List Token}
    {why : SyntaxError} (h : expressionAt ctx depth tokens = .error why) :
    ∃ us rest halt, tokens = us ++ rest ∧
      ExpressionHalts maxDepth (depth + 1) us (ctx.upcoming rest) halt :=
  haltsBelow (tokens.length + 1) (Nat.lt_succ_self _) h

end Grammar

/-! ## Whole token lists -/

namespace Expr

/-- Where parsing starts: at the end that the token list has, or that it lacks. -/
def parseContext (tokens : List Token) : Context :=
  ⟨endOffset tokens, none⟩

/-- The tokens that parsing looks at. -/
def parseBody (tokens : List Token) : List Token :=
  tokens.takeWhile (·.kind ≠ .eof)

theorem exists_eq_parseBody_append (tokens : List Token) :
    ∃ after, tokens = parseBody tokens ++ after :=
  ⟨_, List.takeWhile_append_dropWhile.symm⟩

theorem kind_of_mem_parseBody {tokens : List Token} {t : Token} (h : t ∈ parseBody tokens) :
    t.kind ≠ .eof := by
  simpa using List.all_eq_true.1 List.all_takeWhile t h

/-- A token list is accepted exactly if what stands in front of the end of input derives a tree. -/
theorem parse_eq_ok_iff {tokens : List Token} {e : Expr} :
    Expr.parse tokens = .ok e ↔ Grammar.Expression maxDepth 1 (parseBody tokens) e :=
  parse_eq_ok_iff_expressionAt.trans (Grammar.expression_iff_expressionAt _).symm

/-- Parsing reads one expression and wants nothing behind it. -/
theorem parse_eq_bind {tokens : List Token} (h : parseBody tokens ≠ []) :
    Expr.parse tokens = (do
      let (e, rest) ← expressionAt (parseContext tokens) 0 (parseBody tokens)
      match rest with
      | [] => .ok e
      | t :: _ => .error (Halt.finish.error (parseContext tokens) t)) := by
  unfold Expr.parse expressionAt
  rw [bind_map_left]
  split
  · next hnil => exact absurd hnil h
  · next t more hcons =>
      rw [parseBody, hcons]
      refine bind_congr fun reading => ?_
      obtain ⟨e, rest, hshorter⟩ := reading
      cases rest with
      | nil => rfl
      | cons u behind =>
          dsimp only [Halt.error, Reading.pair]
          cases u.kind <;> rfl

/-- A token list is refused exactly if there is nothing in front of the end of input, or if what is
there halts in front of some token.  The error depends on the tokens up to that one. -/
theorem parse_eq_error_iff {tokens : List Token} {err : SyntaxError} :
    Expr.parse tokens = .error err ↔
      parseBody tokens = [] ∧ err = ⟨.emptyInput, 0⟩ ∨
      parseBody tokens ≠ [] ∧ ∃ us rest halt, parseBody tokens = us ++ rest ∧
        Grammar.Halts maxDepth us ((parseContext tokens).upcoming rest) halt ∧
        err = halt.error ((parseContext tokens).behind [] us)
          ((parseContext tokens).upcoming rest) := by
  let ctx := parseContext tokens
  by_cases hempty : parseBody tokens = []
  · have hparse : Expr.parse tokens = .error ⟨.emptyInput, 0⟩ := by
      unfold Expr.parse
      split
      · rfl
      · next hcons => exact absurd (hempty.symm.trans hcons) (List.cons_ne_nil _ _).symm
    rw [hparse, Except.error.injEq]
    simp [hempty, eq_comm]
  refine Iff.trans ?_ (or_iff_right fun h => hempty h.1).symm
  rw [and_iff_right hempty, parse_eq_bind hempty, bind_eq_error_iff]
  constructor
  · rintro (hinside | ⟨⟨e, rest⟩, hread, hbehind⟩)
    · obtain ⟨us, rest, halt, htokens, hhalt⟩ := Grammar.halts_of_expressionAt hinside
      refine ⟨us, rest, halt, htokens, .inside hhalt, ?_⟩
      have hopened : ctx.opened = ([] : List Nat).head? := rfl
      have herror := hhalt.expressionAt_append rfl hopened rfl
      rw [← htokens, hinside] at herror
      exact Except.error.inj herror
    · obtain ⟨us, htokens, hus, hends⟩ := Grammar.expression_of_expressionAt hread
      cases rest with
      | nil => contradiction
      | cons t more =>
          have ht : t.kind ≠ .eof := kind_of_mem_parseBody (by rw [htokens]; simp)
          refine ⟨us, t :: more, .finish, htokens, .behind hus ?_ ht, ?_⟩
          · exact (endsSum_upcoming_iff ctx us (t :: more)).2 hends
          · exact (Except.error.inj hbehind).symm
  · rintro ⟨us, rest, halt, htokens, hhalt, rfl⟩
    rw [htokens]
    cases hhalt with
    | inside h => exact .inl (h.expressionAt_append rfl rfl rfl)
    | @behind e hus hends hnext =>
        have hread : expressionAt ctx 0 (us ++ rest) = .ok (e, rest) :=
          hus.expressionAt_append rfl ((endsSum_upcoming_iff ctx us rest).1 hends)
        cases rest with
        | nil => exact absurd rfl hnext
        | cons t more => exact .inr ⟨(e, t :: more), hread, rfl⟩

end Expr

end ToneGraph
