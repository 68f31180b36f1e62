import ToneGraph.Checked
import ToneGraph.Proofs.Except
import ToneGraph.Proofs.Expr.Grammar
/-!
# Names of calls

Every call of a parsed expression was written as a name, and the call knows where.  Looking names up
neither adds calls nor moves them, so whatever a later stage says about a call is said about a name
that stands in the source.

A name that is not called is always `time`.  No other is parsed, so names that are not called are
never looked up in vain.

## Main definitions

* `NamedAt`: a name token spells a name at an offset.
* `Expr.Named`, `Checked.Named`: expressions whose calls are all written as names.

## Main statements

* `Grammar.Expression.named`: the calls of a derived tree are written as names.
* `Expr.Named.of_check`, `Expr.Named.blames_of_check`: so are those of the checked tree, and an
  error of checking is about a call.
-/

namespace ToneGraph

/-- A name token of the list spells `name` at `offset`. -/
def NamedAt (tokens : List Token) (name : String) (offset : Nat) : Prop :=
  ∃ t ∈ tokens, t.kind = .identifier ∧ t.text = name ∧ t.offset = offset

namespace Expr

mutual

/-- Every call is written as a name, and a name that is not called is that of a context value. -/
def Named (tokens : List Token) : Expr → Prop
  | number _ _ => True
  | identifier name _ => (lookupContext name).isSome
  | call callee args offset => NamedAt tokens callee offset ∧ AllNamed tokens args
  | binary _ left right _ => Named tokens left ∧ Named tokens right
  | negate operand _ => Named tokens operand

/-- Every call in any of the expressions is written as a name. -/
def AllNamed (tokens : List Token) : List Expr → Prop
  | [] => True
  | e :: rest => Named tokens e ∧ AllNamed tokens rest

end

end Expr

namespace Checked

mutual

/-- Every call is written as a name, and the vocabulary says of that name what the call means and
how many arguments it takes. -/
def Named (tokens : List Token) : Checked → Prop
  | number _ _ => True
  | context _ _ => True
  | call function name args offset =>
    NamedAt tokens name offset ∧
      (∃ word ∈ vocabulary, word.name = name ∧ word.function = function ∧
        args.length = word.arity) ∧
      AllNamed tokens args
  | binary _ left right _ => Named tokens left ∧ Named tokens right
  | negate operand _ => Named tokens operand

/-- Every call in any of the expressions is written as a name. -/
def AllNamed (tokens : List Token) : List Checked → Prop
  | [] => True
  | e :: rest => Named tokens e ∧ AllNamed tokens rest

end

end Checked

/-! ## Derived trees -/

namespace Grammar

variable {limit : Nat} {tokens : List Token}

mutual

/-- The calls of a derived tree are written as names. -/
theorem Expression.named {depth : Nat} {us : List Token} {e : Expr} :
    Expression limit depth us e → us ⊆ tokens → e.Named tokens
  | .additive _ h, hsub => h.named hsub

theorem Additive.named {depth k : Nat} {us : List Token} {e : Expr} :
    Additive limit depth k us e → us ⊆ tokens → e.Named tokens
  | .first h, hsub => h.named hsub
  | .next hleft _ _ _ hright, hsub =>
      let ⟨hus, hvs⟩ := List.append_subset.1 hsub
      ⟨hleft.named hus, hright.named (List.cons_subset.1 hvs).2⟩

theorem Multiplicative.named {depth k : Nat} {us : List Token} {e : Expr} :
    Multiplicative limit depth k us e → us ⊆ tokens → e.Named tokens
  | .first h, hsub => h.named hsub
  | .next hleft _ _ _ hright, hsub =>
      let ⟨hus, hvs⟩ := List.append_subset.1 hsub
      ⟨hleft.named hus, hright.named (List.cons_subset.1 hvs).2⟩

theorem Unary.named {depth : Nat} {us : List Token} {e : Expr} :
    Unary limit depth us e → us ⊆ tokens → e.Named tokens
  | .primary h, hsub => h.named hsub
  | .minus _ _ h, hsub => h.named (List.cons_subset.1 hsub).2

theorem Primary.named {depth : Nat} {us : List Token} {e : Expr} :
    Primary limit depth us e → us ⊆ tokens → e.Named tokens
  | .number _, _ => trivial
  | .group _ h _, hsub => h.named (List.append_subset.1 (List.cons_subset.1 hsub).2).1
  | .callNone hname _ _, hsub => ⟨⟨_, (List.cons_subset.1 hsub).1, hname, rfl, rfl⟩, trivial⟩
  | .call hname _ h _, hsub =>
      let ⟨hmem, hbehind⟩ := List.cons_subset.1 hsub
      ⟨⟨_, hmem, hname, rfl, rfl⟩,
        h.named (List.append_subset.1 (List.cons_subset.1 hbehind).2).1⟩
  | .time _ htext, _ => by
      rw [Expr.Named, htext]
      rfl

theorem Arguments.named {depth : Nat} {us : List Token} {args : List Expr} :
    Arguments limit depth us args → us ⊆ tokens → Expr.AllNamed tokens args
  | .last h, hsub => ⟨h.named hsub, trivial⟩
  | .more h _ hargs, hsub =>
      let ⟨hus, hvs⟩ := List.append_subset.1 hsub
      ⟨h.named hus, hargs.named (List.cons_subset.1 hvs).2⟩

end

end Grammar

/-! ## Checked trees -/

/-- The errors that checking gives, with the name token that each is about: a called name that means
nothing, or that is called with a wrong number of arguments. -/
inductive SemanticError.Blames (tokens : List Token) : SemanticError → (offset : Nat) → Prop
  | unknownFunction {t} : t ∈ tokens → t.kind = .identifier →
      Blames tokens (.unknownFunction t.text t.offset) t.offset
  | arity {t expected got} : t ∈ tokens → t.kind = .identifier →
      Blames tokens (.arity t.text expected got t.offset) t.offset

namespace Expr

variable {tokens : List Token}

theorem length_checkAll {es : List Expr} {cs : List Checked} (h : checkAll es = .ok cs) :
    cs.length = es.length := by
  induction es generalizing cs with
  | nil =>
      cases h
      rfl
  | cons e rest ih =>
      obtain ⟨c, _, hmore⟩ := bind_eq_ok_iff.1 h
      obtain ⟨others, hothers, heq⟩ := bind_eq_ok_iff.1 hmore
      cases heq
      rw [List.length_cons, List.length_cons, ih hothers]

mutual

/-- Checking keeps the calls and their places. -/
theorem Named.of_check : ∀ {e : Expr} {c : Checked}, e.Named tokens → e.check = .ok c →
    c.Named tokens
  | .number _ _, _, _, h => by
      cases h
      trivial
  | .identifier name offset, _, _, h => by
      rw [check] at h
      split at h
      · cases h
        trivial
      · contradiction
  | .call callee args offset, _, ⟨hname, hargs⟩, h => by
      rw [check] at h
      split at h
      · contradiction
      · next word hword =>
          split at h
          · contradiction
          · next hcount =>
              obtain ⟨cs, hcs, heq⟩ := bind_eq_ok_iff.1 h
              cases heq
              have hspelled : word.name = callee := by simpa using List.find?_some hword
              refine ⟨hname, ⟨word, List.mem_of_find?_eq_some hword, hspelled, rfl, ?_⟩,
                AllNamed.of_check hargs hcs⟩
              rw [length_checkAll hcs]
              exact Decidable.not_not.1 hcount
  | .binary _ left right _, _, ⟨hleft, hright⟩, h => by
      obtain ⟨l, hl, hmore⟩ := bind_eq_ok_iff.1 h
      obtain ⟨r, hr, heq⟩ := bind_eq_ok_iff.1 hmore
      cases heq
      exact ⟨Named.of_check hleft hl, Named.of_check hright hr⟩
  | .negate operand _, _, hoperand, h => by
      obtain ⟨x, hx, heq⟩ := bind_eq_ok_iff.1 h
      cases heq
      show x.Named tokens
      exact Named.of_check (e := operand) hoperand hx

theorem AllNamed.of_check : ∀ {es : List Expr} {cs : List Checked}, AllNamed tokens es →
    checkAll es = .ok cs → Checked.AllNamed tokens cs
  | [], _, _, h => by
      cases h
      trivial
  | e :: rest, _, ⟨he, hrest⟩, h => by
      obtain ⟨c, hc, hmore⟩ := bind_eq_ok_iff.1 h
      obtain ⟨others, hothers, heq⟩ := bind_eq_ok_iff.1 hmore
      cases heq
      exact ⟨Named.of_check he hc, AllNamed.of_check hrest hothers⟩

end

mutual

/-- An error of checking is about a call. -/
theorem Named.blames_of_check : ∀ {e : Expr} {why : SemanticError}, e.Named tokens →
    e.check = .error why → why.Blames tokens why.offset
  | .identifier name offset, _, hname, h => by
      rw [check] at h
      split at h
      · contradiction
      · next hnone =>
          rw [Named, hnone] at hname
          contradiction
  | .call callee args offset, _, ⟨⟨t, ht, hkind, htext, hoffset⟩, hargs⟩, h => by
      subst htext hoffset
      rw [check] at h
      split at h
      · cases h
        exact .unknownFunction ht hkind
      · split at h
        · cases h
          exact .arity ht hkind
        · rcases bind_eq_error_iff.1 h with hall | ⟨_, _, hok⟩
          · exact AllNamed.blames_of_check hargs hall
          · contradiction
  | .binary _ left right _, _, ⟨hleft, hright⟩, h => by
      rcases bind_eq_error_iff.1 h with hl | ⟨_, _, hmore⟩
      · exact Named.blames_of_check hleft hl
      · rcases bind_eq_error_iff.1 hmore with hr | ⟨_, _, hok⟩
        · exact Named.blames_of_check hright hr
        · contradiction
  | .negate operand _, _, hoperand, h => by
      rcases bind_eq_error_iff.1 h with hx | ⟨_, _, hok⟩
      · exact Named.blames_of_check (e := operand) hoperand hx
      · contradiction

theorem AllNamed.blames_of_check : ∀ {es : List Expr} {why : SemanticError},
    AllNamed tokens es → checkAll es = .error why → why.Blames tokens why.offset
  | e :: rest, _, ⟨he, hrest⟩, h => by
      rcases bind_eq_error_iff.1 h with hfirst | ⟨_, _, hmore⟩
      · exact Named.blames_of_check he hfirst
      · rcases bind_eq_error_iff.1 hmore with hothers | ⟨_, _, hok⟩
        · exact AllNamed.blames_of_check hrest hothers
        · contradiction

end

end Expr

end ToneGraph
