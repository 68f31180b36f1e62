import ToneGraph.Proofs.Expr.Height
import ToneGraph.Proofs.Expr.Refusal
/-!
# Where a failure is reported

The token that stops the parser is the first that no accepted token list can have there.  The tokens
before it can be completed: whatever is begun where reading halts ends with a number, the call that
a name wants, and the parentheses that are open, and none of that goes deeper than what is already
there.  With the token the list is lost, since the error of a halt depends on nothing behind it.

The error points at that token, with three exceptions.  Which of them applies can be read off the
tokens up to it, without the rules of a halt.

## Main definitions

* `uncalled?`: the name at the end of some tokens that wants to be called.
* `blame`: the offset that is reported for a token behind some others.

## Main statements

* `Grammar.Halts.exists_expression`: the tokens before a halt begin an expression.
* `Expr.parse_error_position`: the stopping token, and what its error says.
-/

namespace ToneGraph

/-! ## Names that want to be called -/

/-- Whether a token is a name that means nothing unless it is called. -/
def Token.wantsCall (t : Token) : Bool :=
  t.kind = .identifier && !reservedNames.contains t.text

/-- The name at the end of some tokens that means nothing unless it is called. -/
def uncalled? (us : List Token) : Option Token :=
  us.getLast?.filter Token.wantsCall

theorem Token.wantsCall_of_kind {t : Token} (h : t.kind ≠ .identifier) : t.wantsCall = false := by
  simp [wantsCall, h]

theorem Token.wantsCall_of_reserved {t : Token} (h : t.text = "time") : t.wantsCall = false := by
  simp [wantsCall, reservedNames, h]

@[simp] theorem uncalled?_nil : uncalled? [] = none := rfl

theorem uncalled?_of_name {name : Token} (hname : name.kind = .identifier)
    (htext : name.text ≠ "time") : uncalled? [name] = some name := by
  simp [uncalled?, Token.wantsCall, reservedNames, hname, htext]

/-- Only what stands behind the last token that is no such name matters. -/
theorem uncalled?_append_cons {t : Token} (ht : t.wantsCall = false) (us vs : List Token) :
    uncalled? (us ++ t :: vs) = uncalled? vs := by
  have hlast : (us ++ t :: vs).getLast? = some (vs.getLast?.getD t) := by
    rw [List.getLast?_append, List.getLast?_cons, Option.some_or]
  rw [uncalled?, uncalled?, hlast]
  cases vs.getLast? with
  | none => simp [Option.filter, ht]
  | some last => rfl

theorem uncalled?_cons {t : Token} (ht : t.wantsCall = false) (us : List Token) :
    uncalled? (t :: us) = uncalled? us :=
  uncalled?_append_cons ht [] us

theorem uncalled?_operand {t : Token} {symbol : Operator} (ht : t.kind = .operator symbol)
    (us vs : List Token) : uncalled? (us ++ t :: vs) = uncalled? vs :=
  uncalled?_append_cons (Token.wantsCall_of_kind (by rw [ht]; nofun)) us vs

theorem uncalled?_comma {comma : Token} (hcomma : comma.kind = .comma) (us vs : List Token) :
    uncalled? (us ++ comma :: vs) = uncalled? vs :=
  uncalled?_append_cons (Token.wantsCall_of_kind (by rw [hcomma]; nofun)) us vs

/-- Nothing in front of an open parenthesis matters, be it the name of a call. -/
theorem uncalled?_opening {opening : Token} (hopen : opening.kind = .leftParen)
    (us vs : List Token) : uncalled? (us ++ opening :: vs) = uncalled? vs :=
  uncalled?_append_cons (Token.wantsCall_of_kind (by rw [hopen]; nofun)) us vs

theorem uncalled?_closed {closing : Token} (hclose : closing.kind = .rightParen)
    (us : List Token) : uncalled? (us ++ [closing]) = none :=
  uncalled?_append_cons (Token.wantsCall_of_kind (by rw [hclose]; nofun)) us []

namespace Grammar

variable {limit : Nat}

mutual

/-- No expression ends with a name that wants to be called. -/
theorem Expression.uncalled?_eq {depth : Nat} {us : List Token} {e : Expr} :
    Expression limit depth us e → uncalled? us = none
  | .additive _ h => h.uncalled?_eq

theorem Additive.uncalled?_eq {depth k : Nat} {us : List Token} {e : Expr} :
    Additive limit depth k us e → uncalled? us = none
  | .first h => h.uncalled?_eq
  | .next _ hkind _ _ hright => by
      rw [uncalled?_operand hkind, hright.uncalled?_eq]

theorem Multiplicative.uncalled?_eq {depth k : Nat} {us : List Token} {e : Expr} :
    Multiplicative limit depth k us e → uncalled? us = none
  | .first h => h.uncalled?_eq
  | .next _ hkind _ _ hright => by
      rw [uncalled?_operand hkind, hright.uncalled?_eq]

theorem Unary.uncalled?_eq {depth : Nat} {us : List Token} {e : Expr} :
    Unary limit depth us e → uncalled? us = none
  | .primary h => h.uncalled?_eq
  | .minus hkind _ h => (uncalled?_operand hkind [] _).trans h.uncalled?_eq

theorem Primary.uncalled?_eq {depth : Nat} {us : List Token} {e : Expr} :
    Primary limit depth us e → uncalled? us = none
  | .number hkind => uncalled?_cons (Token.wantsCall_of_kind (by rw [hkind]; nofun)) []
  | .group _ _ hclose => uncalled?_closed hclose (_ :: _)
  | .callNone _ _ hclose => uncalled?_closed hclose [_, _]
  | .call _ _ _ hclose => uncalled?_closed hclose (_ :: _ :: _)
  | .time _ htime => uncalled?_cons (Token.wantsCall_of_reserved htime) []

end

mutual

/-- No end of input is part of an expression. -/
theorem Expression.kind_ne_eof {depth : Nat} {us : List Token} {e : Expr} :
    Expression limit depth us e → ∀ t ∈ us, t.kind ≠ .eof
  | .additive _ h => h.kind_ne_eof

theorem Additive.kind_ne_eof {depth k : Nat} {us : List Token} {e : Expr} :
    Additive limit depth k us e → ∀ t ∈ us, t.kind ≠ .eof
  | .first h => h.kind_ne_eof
  | .next hleft hkind _ _ hright => by
      rw [List.forall_mem_append, List.forall_mem_cons, hkind]
      exact ⟨hleft.kind_ne_eof, nofun, hright.kind_ne_eof⟩

theorem Multiplicative.kind_ne_eof {depth k : Nat} {us : List Token} {e : Expr} :
    Multiplicative limit depth k us e → ∀ t ∈ us, t.kind ≠ .eof
  | .first h => h.kind_ne_eof
  | .next hleft hkind _ _ hright => by
      rw [List.forall_mem_append, List.forall_mem_cons, hkind]
      exact ⟨hleft.kind_ne_eof, nofun, hright.kind_ne_eof⟩

theorem Unary.kind_ne_eof {depth : Nat} {us : List Token} {e : Expr} :
    Unary limit depth us e → ∀ t ∈ us, t.kind ≠ .eof
  | .primary h => h.kind_ne_eof
  | .minus hkind _ h => by
      rw [List.forall_mem_cons, hkind]
      exact ⟨nofun, h.kind_ne_eof⟩

theorem Primary.kind_ne_eof {depth : Nat} {us : List Token} {e : Expr} :
    Primary limit depth us e → ∀ t ∈ us, t.kind ≠ .eof
  | .number hkind => by
      rw [List.forall_mem_singleton, hkind]
      nofun
  | .group hopen h hclose => by
      rw [List.forall_mem_cons, List.forall_mem_append, List.forall_mem_singleton, hopen, hclose]
      exact ⟨nofun, h.kind_ne_eof, nofun⟩
  | .callNone hname hopen hclose => by
      rw [List.forall_mem_cons, List.forall_mem_cons, List.forall_mem_singleton, hname, hopen,
        hclose]
      exact ⟨nofun, nofun, nofun⟩
  | .call hname hopen h hclose => by
      rw [List.forall_mem_cons, List.forall_mem_cons, List.forall_mem_append,
        List.forall_mem_singleton, hname, hopen, hclose]
      exact ⟨nofun, nofun, h.kind_ne_eof, nofun⟩
  | .time hkind _ => by
      rw [List.forall_mem_singleton, hkind]
      nofun

theorem Arguments.kind_ne_eof {depth : Nat} {us : List Token} {args : List Expr} :
    Arguments limit depth us args → ∀ t ∈ us, t.kind ≠ .eof
  | .last h => h.kind_ne_eof
  | .more h hcomma hargs => by
      rw [List.forall_mem_append, List.forall_mem_cons, hcomma]
      exact ⟨h.kind_ne_eof, nofun, hargs.kind_ne_eof⟩

end

end Grammar

/-- An expression that stands alone is parsed. -/
theorem Expr.parse_of_phrase {us : List Token} {e : Expr}
    (h : Grammar.Expression maxDepth 1 us e) : Expr.parse us = .ok e := by
  have hparse : Expr.parse (us ++ []) = .ok e := Expr.parse_of_expression h h.kind_ne_eof nofun
  rwa [List.append_nil] at hparse

/-! ## What a halt says about the tokens before it -/

/-- The name that a reader wants to be called. -/
def Halt.name? : Halt → Option Token
  | call name => some name
  | _ => none

/-- A halt fits the tokens before it if they end with the name that it is about, if any, and the
token behind it if a whole expression does not stand alone because of it. -/
def Halt.Fits (halt : Halt) (us : List Token) (next : Token) : Prop :=
  uncalled? us = halt.name? ∧ (halt = .finish → next.kind ≠ .eof)

namespace Grammar

variable {limit : Nat}

mutual

theorem ExpressionHalts.fits {depth : Nat} {us : List Token} {next : Token}
    {halt : Halt} :
    ExpressionHalts limit depth us next halt → halt.Fits us next
  | .level _ => ⟨rfl, nofun⟩
  | .additive _ h => h.fits

theorem AdditiveHalts.fits {depth : Nat} {us : List Token} {next : Token}
    {halt : Halt} :
    AdditiveHalts limit depth us next halt → halt.Fits us next
  | .first h => h.fits
  | .level _ hkind _ _ => ⟨uncalled?_operand hkind _ [], nofun⟩
  | .next _ hkind _ _ h => ⟨(uncalled?_operand hkind _ _).trans h.fits.1, h.fits.2⟩

theorem MultiplicativeHalts.fits {depth : Nat} {us : List Token} {next : Token}
    {halt : Halt} :
    MultiplicativeHalts limit depth us next halt → halt.Fits us next
  | .first h => h.fits
  | .level _ hkind _ _ => ⟨uncalled?_operand hkind _ [], nofun⟩
  | .next _ hkind _ _ h => ⟨(uncalled?_operand hkind _ _).trans h.fits.1, h.fits.2⟩

theorem UnaryHalts.fits {depth : Nat} {us : List Token} {next : Token}
    {halt : Halt} :
    UnaryHalts limit depth us next halt → halt.Fits us next
  | .primary h => h.fits
  | .level hkind _ => ⟨uncalled?_operand hkind [] [], nofun⟩
  | .minus hkind _ h => ⟨(uncalled?_operand hkind [] _).trans h.fits.1, h.fits.2⟩

theorem PrimaryHalts.fits {depth : Nat} {us : List Token} {next : Token}
    {halt : Halt} :
    PrimaryHalts limit depth us next halt → halt.Fits us next
  | .operand _ => ⟨rfl, nofun⟩
  | .name hname htext _ => ⟨uncalled?_of_name hname htext, nofun⟩
  | .group hopen h => ⟨(uncalled?_opening hopen [] _).trans h.fits.1, h.fits.2⟩
  | .closing hopen h _ _ => ⟨(uncalled?_opening hopen [] _).trans h.uncalled?_eq, nofun⟩
  | .call _ hopen _ h => ⟨(uncalled?_opening hopen [_] _).trans h.fits.1, h.fits.2⟩

theorem ArgumentsHalts.fits {depth : Nat} {us : List Token} {next : Token}
    {halt : Halt} :
    ArgumentsHalts limit depth us next halt → halt.Fits us next
  | .last h => h.fits
  | .closing h _ _ _ => ⟨h.uncalled?_eq, nofun⟩
  | .more _ hcomma h => ⟨(uncalled?_comma hcomma _ _).trans h.fits.1, h.fits.2⟩

end

theorem Halts.fits {us : List Token} {next : Token} {halt : Halt} :
    Halts limit us next halt → halt.Fits us next
  | .inside h => h.fits
  | .behind h _ hnext => ⟨h.uncalled?_eq, fun _ => hnext⟩

/-! ## What is begun can be completed -/

/-- A number, to complete an expression with. -/
def zero : Token := ⟨.number 0, "0", 0⟩

/-- Parentheses to complete a call with. -/
def opening : Token := ⟨.leftParen, "(", 0⟩

def closing : Token := ⟨.rightParen, ")", 0⟩

mutual

/-- The tokens of an expression before a halt begin an expression, unless it is the depth that is
exhausted. -/
theorem ExpressionHalts.exists_expression {depth : Nat} {us : List Token} {next : Token}
    {halt : Halt} (hlevel : ∀ t, halt ≠ .level t) :
    ExpressionHalts limit depth us next halt → ∃ vs e, Expression limit depth (us ++ vs) e
  | .level _ => absurd rfl (hlevel _)
  | .additive hdepth h =>
      let ⟨vs, e, _, hadd⟩ := h.exists_additive hlevel
      ⟨vs, e, .additive hdepth hadd⟩

theorem AdditiveHalts.exists_additive {depth : Nat} {us : List Token} {next : Token}
    {halt : Halt} (hlevel : ∀ t, halt ≠ .level t) :
    AdditiveHalts limit depth us next halt → ∃ vs e k, Additive limit depth k (us ++ vs) e
  | .first h =>
      let ⟨vs, e, _, hmul⟩ := h.exists_multiplicative hlevel
      ⟨vs, e, 0, .first hmul⟩
  | .level _ _ _ _ => absurd rfl (hlevel _)
  | .next hleft hkind hadd hdepth h => by
      obtain ⟨vs, e, k, hmul⟩ := h.exists_multiplicative hlevel
      have hsum := Additive.next hleft hkind hadd hdepth hmul
      rw [← List.cons_append, ← List.append_assoc] at hsum
      exact ⟨vs, _, _, hsum⟩

theorem MultiplicativeHalts.exists_multiplicative {depth : Nat} {us : List Token} {next : Token}
    {halt : Halt} (hlevel : ∀ t, halt ≠ .level t) :
    MultiplicativeHalts limit depth us next halt →
    ∃ vs e k, Multiplicative limit depth k (us ++ vs) e
  | .first h =>
      let ⟨vs, e, hunary⟩ := h.exists_unary hlevel
      ⟨vs, e, 0, .first hunary⟩
  | .level _ _ _ _ => absurd rfl (hlevel _)
  | .next hleft hkind hmul hdepth h => by
      obtain ⟨vs, e, hunary⟩ := h.exists_unary hlevel
      have hproduct := Multiplicative.next hleft hkind hmul hdepth hunary
      rw [← List.cons_append, ← List.append_assoc] at hproduct
      exact ⟨vs, _, _, hproduct⟩

theorem UnaryHalts.exists_unary {depth : Nat} {us : List Token} {next : Token}
    {halt : Halt} (hlevel : ∀ t, halt ≠ .level t) :
    UnaryHalts limit depth us next halt → ∃ vs e, Unary limit depth (us ++ vs) e
  | .primary h =>
      let ⟨vs, e, hprimary⟩ := h.exists_primary hlevel
      ⟨vs, e, .primary hprimary⟩
  | .level _ _ => absurd rfl (hlevel _)
  | .minus hkind hdepth h =>
      let ⟨vs, _, hunary⟩ := h.exists_unary hlevel
      ⟨vs, _, .minus hkind hdepth hunary⟩

theorem PrimaryHalts.exists_primary {depth : Nat} {us : List Token} {next : Token}
    {halt : Halt} (hlevel : ∀ t, halt ≠ .level t) :
    PrimaryHalts limit depth us next halt → ∃ vs e, Primary limit depth (us ++ vs) e
  | .operand _ => ⟨[zero], _, .number rfl⟩
  | .name hname _ _ => ⟨[opening, closing], _, .callNone hname rfl rfl⟩
  | .group hopen h => by
      obtain ⟨vs, e, hinner⟩ := h.exists_expression hlevel
      have hgroup := Primary.group hopen hinner (rfl : closing.kind = .rightParen)
      rw [List.append_assoc] at hgroup
      exact ⟨vs ++ [closing], _, hgroup⟩
  | .closing hopen h _ _ => ⟨[closing], _, .group hopen h rfl⟩
  | .call hname hopen _ h => by
      obtain ⟨vs, args, hargs⟩ := h.exists_arguments hlevel
      have hcall := Primary.call hname hopen hargs (rfl : closing.kind = .rightParen)
      rw [List.append_assoc] at hcall
      exact ⟨vs ++ [closing], _, hcall⟩

theorem ArgumentsHalts.exists_arguments {depth : Nat} {us : List Token} {next : Token}
    {halt : Halt} (hlevel : ∀ t, halt ≠ .level t) :
    ArgumentsHalts limit depth us next halt → ∃ vs args, Arguments limit depth (us ++ vs) args
  | .last h =>
      let ⟨vs, e, hlast⟩ := h.exists_expression hlevel
      ⟨vs, [e], .last hlast⟩
  | .closing h _ _ _ => ⟨[], _, by rw [List.append_nil]; exact .last h⟩
  | .more h hcomma hmore => by
      obtain ⟨vs, args, hargs⟩ := hmore.exists_arguments hlevel
      have hall := Arguments.more h hcomma hargs
      rw [← List.cons_append, ← List.append_assoc] at hall
      exact ⟨vs, _, hall⟩

end

/-- The tokens before a halt begin an expression, unless it is the depth that is exhausted. -/
theorem Halts.exists_expression {us : List Token} {next : Token} {halt : Halt}
    (hlevel : ∀ t, halt ≠ .level t) :
    Halts limit us next halt → ∃ vs e, Expression limit 1 (us ++ vs) e
  | .inside h => h.exists_expression hlevel
  | .behind h _ _ => ⟨[], _, by rw [List.append_nil]; exact h⟩

end Grammar

/-! ## What the error says -/

/-- Where a failure in front of `t` is reported: at the name before it if that wants to be called,
at the innermost open parenthesis if the input ends, at 0 if there is no input, and else at `t`. -/
def blame (before : List Token) (t : Token) : Nat :=
  match uncalled? before with
  | some name => name.offset
  | none =>
    if t.kind ≠ .eof then t.offset
    else if before = [] then 0
    else (openParens [] before).head?.getD t.offset

namespace Halt

variable {halt : Halt} {us : List Token} {next : Token}

/-- Only the error for an input that ends looks at what surrounds the token. -/
theorem error_congr (hnext : next.kind ≠ .eof) (ctx ctx' : Context) :
    halt.error ctx next = halt.error ctx' next := by
  cases halt with
  | operand =>
      unfold error
      cases hkind : next.kind <;> first | rfl | contradiction
  | closing =>
      unfold error
      cases hkind : next.kind <;> first | rfl | contradiction
  | level | call | finish => rfl

theorem offset_error (hfits : halt.Fits us next) (hlevel : ∀ t, halt ≠ .level t)
    (hsome : next.kind = .eof → us ≠ []) {ctx : Context}
    (hstop : next.kind = .eof → ctx.stop = next.offset)
    (hopened : ctx.opened = (openParens [] us).head?) :
    (halt.error ctx next).offset = blame us next := by
  have hend : next.kind = .eof → ctx.endError.offset =
      (openParens [] us).head?.getD next.offset := by
    intro hnext
    rw [Context.endError, hopened]
    cases (openParens [] us).head? with
    | none => exact hstop hnext
    | some opened => rfl
  rw [blame, hfits.1]
  cases halt with
  | level t => exact absurd rfl (hlevel t)
  | call name => rfl
  | finish =>
      have hnext := hfits.2 rfl
      rw [error]
      cases hkind : next.kind <;> first | contradiction | rfl
  | operand =>
      rw [error]
      cases hkind : next.kind <;> simp [name?, hsome, hend, hkind]
  | closing =>
      rw [error]
      cases hkind : next.kind <;> simp [name?, hsome, hend, hkind]

theorem isLexical_error (hfits : halt.Fits us next) (hlevel : ∀ t, halt ≠ .level t)
    (ctx : Context) :
    (halt.error ctx next).fault.isLexical ↔
      (∃ issue, next.kind = .invalid issue) ∧ uncalled? us = none := by
  rw [hfits.1, halt.isLexical_error_iff]
  cases halt with
  | level t => exact absurd rfl (hlevel t)
  | operand | call | closing | finish => simp [name?]

end Halt

/-! ## Whole token lists -/

/-- A token list with the end of input that it may lack. -/
def withEnd (tokens : List Token) : List Token :=
  if tokens.any (·.kind = .eof) then tokens else tokens ++ [⟨.eof, "", endOffset tokens⟩]

namespace Expr

theorem parseBody_append {us : List Token} (hus : ∀ t ∈ us, t.kind ≠ .eof) (rest : List Token) :
    parseBody (us ++ rest) = us ++ parseBody rest :=
  List.takeWhile_append_of_pos fun t ht => decide_eq_true (hus t ht)

theorem parseBody_cons_of_eof {t : Token} (ht : t.kind = .eof) (rest : List Token) :
    parseBody (t :: rest) = [] := by
  simp [parseBody, ht]

theorem parseBody_cons_of_not_eof {t : Token} (ht : t.kind ≠ .eof) (rest : List Token) :
    parseBody (t :: rest) = t :: parseBody rest := by
  simp [parseBody, ht]

/-- What halts in front of a token is refused there, whatever stands behind the token. -/
theorem parse_of_halts {us : List Token} (hus : ∀ t ∈ us, t.kind ≠ .eof) {t : Token}
    (ht : t.kind ≠ .eof) {halt : Halt} (h : Grammar.Halts maxDepth us t halt) (ctx : Context)
    (rest : List Token) : Expr.parse (us ++ t :: rest) = .error (halt.error ctx t) := by
  have hbody : parseBody (us ++ t :: rest) = us ++ t :: parseBody rest := by
    rw [parseBody_append hus, parseBody_cons_of_not_eof ht]
  refine parse_eq_error_iff.2 (.inr ⟨?_, us, t :: parseBody rest, halt, hbody, h, ?_⟩)
  · rw [hbody]
    exact List.append_ne_nil_of_right_ne_nil us (List.cons_ne_nil _ _)
  · exact Halt.error_congr ht _ _

theorem endOffset_append_cons {us : List Token} (hus : ∀ t ∈ us, t.kind ≠ .eof) {t : Token}
    (ht : t.kind = .eof) (rest : List Token) : endOffset (us ++ t :: rest) = t.offset := by
  have hnone : us.find? (·.kind = .eof) = none := by simpa using hus
  simp [endOffset, List.find?_append, hnone, ht]

/-- Behind the tokens that parsing looks at stands an end of input, where the input ends. -/
theorem exists_withEnd_eq (tokens : List Token) :
    ∃ stop after, withEnd tokens = parseBody tokens ++ stop :: after ∧ stop.kind = .eof ∧
      stop.offset = endOffset tokens := by
  cases hfind : tokens.find? (·.kind = .eof) with
  | none =>
      have hnone : ∀ t ∈ tokens, t.kind ≠ .eof := by simpa using hfind
      have hany : tokens.any (·.kind = .eof) = false := by simpa using hnone
      have hbody := parseBody_append hnone []
      rw [List.append_nil] at hbody
      rw [withEnd, hany, hbody]
      exact ⟨_, [], congrArg (· ++ _) (List.append_nil tokens).symm, rfl, rfl⟩
  | some stop =>
      obtain ⟨hstop, before, after, rfl, hbefore⟩ := List.find?_eq_some_iff_append.1 hfind
      replace hstop : stop.kind = .eof := of_decide_eq_true hstop
      replace hbefore : ∀ t ∈ before, t.kind ≠ .eof := by simpa using hbefore
      refine ⟨stop, after, ?_, hstop, (endOffset_append_cons hbefore hstop after).symm⟩
      have hany : (before ++ stop :: after).any (·.kind = .eof) = true := by simp [hstop]
      rw [withEnd, hany, if_pos rfl, parseBody_append hbefore, parseBody_cons_of_eof hstop,
        List.append_nil]

/-- The error of a token list depends on the tokens up to the one that stops the parser, and on
nothing behind it; what stands before that token begins an accepted token list.  So that token is
the last that the outcome depends on.  Unless the depth is exhausted, the error stands at that token
or is one of three that point elsewhere, and it is lexical if and only if the token is invalid and
no name before it wants to be called. -/
theorem parse_error_position {tokens : List Token} {err : SyntaxError}
    (h : Expr.parse tokens = .error err) (hdepth : err.fault ≠ .tooDeep) :
    ∃ before t after, withEnd tokens = before ++ t :: after ∧
      (∃ more e, Expr.parse (before ++ more) = .ok e) ∧
      (∀ more, Expr.parse (before ++ t :: more) = .error err) ∧
      err.offset = blame before t ∧
      (err.fault.isLexical ↔ (∃ issue, t.kind = .invalid issue) ∧ uncalled? before = none) := by
  obtain ⟨stop, after, hwith, hstop, hend⟩ := exists_withEnd_eq tokens
  rcases parse_eq_error_iff.1 h with ⟨hempty, rfl⟩ | ⟨hbody, us, rest, halt, hsplit, hhalt, rfl⟩
  · refine ⟨[], stop, after, by rw [hwith, hempty], ?_, ?_, ?_, ?_⟩
    · exact ⟨[Grammar.zero], _, parse_of_phrase
        (.additive (by decide) (.first (.first (.primary (.number rfl)))))⟩
    · intro more
      exact parse_eq_error_iff.2 (.inl ⟨parseBody_cons_of_eof hstop more, rfl⟩)
    · simp [blame, hstop]
    · simp [SyntaxFault.isLexical, hstop]
  have hlevel : ∀ t, halt ≠ .level t := by
    rintro t rfl
    exact hdepth rfl
  have hus : ∀ t ∈ us, t.kind ≠ .eof := fun t ht =>
    kind_of_mem_parseBody (by rw [hsplit]; exact List.mem_append_left rest ht)
  obtain ⟨more, e, hphrase⟩ := hhalt.exists_expression hlevel
  have hviable : ∃ more e, Expr.parse (us ++ more) = .ok e := ⟨more, e, parse_of_phrase hphrase⟩
  cases rest with
  | nil =>
      rw [List.append_nil] at hsplit
      have hnext : blame us ((parseContext tokens).upcoming []) = blame us stop := by
        simp [blame, Context.upcoming, parseContext, hstop, hend]
      refine ⟨us, stop, after, by rw [hwith, hsplit], hviable, ?_, ?_, ?_⟩
      · intro more
        have hbody' : parseBody (us ++ stop :: more) = us ++ [] := by
          rw [parseBody_append hus, parseBody_cons_of_eof hstop]
        have hctx : parseContext (us ++ stop :: more) = parseContext tokens := by
          rw [parseContext, parseContext, endOffset_append_cons hus hstop, hend]
        refine parse_eq_error_iff.2 (.inr ⟨?_, us, [], halt, hbody', ?_, ?_⟩)
        · rwa [hbody', List.append_nil, ← hsplit]
        · rwa [hctx]
        · rw [hctx]
      · rw [← hnext]
        exact Halt.offset_error hhalt.fits hlevel (fun _ => by rwa [← hsplit]) (fun _ => rfl) rfl
      · rw [Halt.isLexical_error hhalt.fits hlevel, hstop]
        simp [Context.upcoming]
  | cons t behind =>
      have ht : t.kind ≠ .eof := kind_of_mem_parseBody (by rw [hsplit]; simp)
      refine ⟨us, t, behind ++ stop :: after, ?_, hviable, ?_, ?_, ?_⟩
      · rw [hwith, hsplit, List.append_assoc, List.cons_append]
      · exact parse_of_halts hus ht hhalt _
      · exact Halt.offset_error hhalt.fits hlevel (fun heof => absurd heof ht)
          (fun heof => absurd heof ht) rfl
      · exact Halt.isLexical_error hhalt.fits hlevel _

/-- In `(saw` the name wants to be called, which comes before the parenthesis that stays open. -/
theorem parse_open_name :
    let tokens : List Token := [⟨.leftParen, "(", 0⟩, ⟨.identifier, "saw", 1⟩]
    let err : SyntaxError := ⟨.expectedCall "saw", 1⟩
    Expr.parse tokens = .error err ∧ err.fault ≠ .tooDeep ∧
      ∃ before t after, withEnd tokens = before ++ t :: after ∧
        (∃ more e, Expr.parse (before ++ more) = .ok e) ∧
        (∀ more, Expr.parse (before ++ t :: more) = .error err) ∧
        err.offset = blame before t ∧
        (err.fault.isLexical ↔ (∃ issue, t.kind = .invalid issue) ∧ uncalled? before = none) := by
  intro tokens err
  have hhalt : Grammar.Halts maxDepth tokens ((parseContext tokens).upcoming [])
      (.call ⟨.identifier, "saw", 1⟩) :=
    .inside (.additive (by decide) (.first (.first (.primary (.group rfl
      (.additive (by decide) (.first (.first (.primary (.name rfl (by decide) nofun))))))))))
  have hparse : Expr.parse tokens = .error err :=
    parse_eq_error_iff.2 (.inr ⟨List.cons_ne_nil _ _, tokens, [], _, rfl, hhalt, rfl⟩)
  have hdepth : err.fault ≠ .tooDeep := nofun
  exact ⟨hparse, hdepth, parse_error_position hparse hdepth⟩

end Expr

end ToneGraph
