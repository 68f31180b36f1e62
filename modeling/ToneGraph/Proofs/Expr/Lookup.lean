import Mathlib.Data.List.Nodup
import ToneGraph.Checked
import ToneGraph.Proofs.Except
/-!
# Looking names up

Checking an expression looks up its names and counts the arguments of its calls.  Every node is
right or wrong by itself, whatever stands around it, and checking fails at the first node that is
wrong.  Nodes are read from the left and a call before its arguments, which is not the order in
which a checked expression becomes a graph.

Nothing is lost.  What checking adds to a tree is the function of every call, and taking that away
again gives the tree back.  So a tree has one checked tree at most.

## Main definitions

* `Expr.nodes`: the nodes of an expression in the order of the text.
* `Expr.Known`, `Expr.Offends`: a node that is right, and what is wrong with one that is not.
* `Checked.erase`: a checked tree without its functions.
* `Checked.Resolved`: every call means what the vocabulary says of its name.

## Main statements

* `Expr.errorOf_check`: checking fails with the first error of a node.
* `Expr.check_eq_ok_iff`: checking succeeds with the resolved tree that erases to the expression.
* `Expr.check_is_exact`: when checking succeeds, and what it gives.
-/

namespace ToneGraph

/-! ## Tables of names -/

/-- A name stands for the one word of the vocabulary that it spells. -/
theorem lookup_eq_some_iff {name : String} {word : Word} :
    lookup name = some word ↔ word ∈ vocabulary ∧ word.name = name := by
  have hspells : ∀ {name word}, lookup name = some word → word ∈ vocabulary ∧ word.name = name :=
    fun h => ⟨List.mem_of_find?_eq_some h, by simpa using List.find?_some h⟩
  constructor
  · exact hspells
  · rintro ⟨hmem, rfl⟩
    cases hfound : lookup word.name with
    | none =>
        have hmissed := List.find?_eq_none.1 hfound word hmem
        simp at hmissed
    | some other =>
        obtain ⟨hother, hname⟩ := hspells hfound
        have hsame : other = word :=
          List.inj_on_of_nodup_map nodup_vocabulary_names hother hmem hname
        rw [hsame]

theorem lookup_eq_none_iff {name : String} :
    lookup name = none ↔ ∀ word ∈ vocabulary, word.name ≠ name := by
  simp [lookup]

theorem lookupContext_eq_some_iff {name : String} {value : ContextName} :
    lookupContext name = some value ↔ value.name = name := by
  cases value
  simp [lookupContext, ContextName.name, eq_comm]

theorem lookupContext_eq_none_iff {name : String} :
    lookupContext name = none ↔ ∀ value : ContextName, value.name ≠ name := by
  simp only [Option.eq_none_iff_forall_ne_some, ne_eq, lookupContext_eq_some_iff]

/-! ## Nodes -/

namespace Expr

mutual

/-- The nodes of an expression from the left, each before those below it. -/
def nodes : Expr → List Expr
  | number value offset => [number value offset]
  | identifier name offset => [identifier name offset]
  | call callee args offset => call callee args offset :: nodesAll args
  | binary op left right offset => binary op left right offset :: (nodes left ++ nodes right)
  | negate operand offset => negate operand offset :: nodes operand

/-- The nodes of several expressions, from the left. -/
def nodesAll : List Expr → List Expr
  | [] => []
  | e :: rest => nodes e ++ nodesAll rest

end

/-- A node that is right by itself: a call names a word of the vocabulary and has as many arguments
as the word says, and a name that is not called is that of a context value. -/
def Known : Expr → Prop
  | call callee args _ => ∃ word ∈ vocabulary, word.name = callee ∧ args.length = word.arity
  | identifier name _ => ∃ value : ContextName, value.name = name
  | _ => True

/-- What is wrong with a node by itself.  The name of a call comes before the number of its
arguments. -/
inductive Offends : Expr → SemanticError → Prop
  | unknownFunction {callee args offset} : (∀ word ∈ vocabulary, word.name ≠ callee) →
      Offends (.call callee args offset) (.unknownFunction callee offset)
  | arity {word args offset} : word ∈ vocabulary → args.length ≠ word.arity →
      Offends (.call word.name args offset) (.arity word.name word.arity args.length offset)
  | unknownIdentifier {name offset} : (∀ value : ContextName, value.name ≠ name) →
      Offends (.identifier name offset) (.unknownIdentifier name offset)

/-- The error of a node by itself. -/
def fault? : Expr → Option SemanticError
  | call callee args offset =>
    match lookup callee with
    | none => some (.unknownFunction callee offset)
    | some word =>
      if args.length = word.arity then none
      else some (.arity callee word.arity args.length offset)
  | identifier name offset =>
    match lookupContext name with
    | none => some (.unknownIdentifier name offset)
    | some _ => none
  | _ => none

theorem fault?_eq_none_iff {e : Expr} : e.fault? = none ↔ e.Known := by
  cases e with
  | call callee args offset =>
      rw [fault?, Known]
      cases hword : lookup callee with
      | none =>
          have hunknown := lookup_eq_none_iff.1 hword
          refine iff_of_false nofun ?_
          rintro ⟨word, hmem, hname, -⟩
          exact hunknown word hmem hname
      | some word =>
          have hword := lookup_eq_some_iff.1 hword
          by_cases hcount : args.length = word.arity
          · simp only [if_pos hcount, true_iff]
            exact ⟨word, hword.1, hword.2, hcount⟩
          · simp only [if_neg hcount, reduceCtorEq, false_iff]
            rintro ⟨other, hother, hname, hfits⟩
            have hsame := lookup_eq_some_iff.2 ⟨hother, hname⟩
            rw [lookup_eq_some_iff.2 hword] at hsame
            cases hsame
            exact hcount hfits
  | identifier name offset =>
      rw [fault?, Known]
      cases hvalue : lookupContext name with
      | none => simpa using lookupContext_eq_none_iff.1 hvalue
      | some value => simpa using ⟨value, lookupContext_eq_some_iff.1 hvalue⟩
  | _ => simp [fault?, Known]

theorem fault?_eq_some_iff {e : Expr} {why : SemanticError} :
    e.fault? = some why ↔ e.Offends why := by
  constructor
  · intro h
    cases e with
    | call callee args offset =>
        rw [fault?] at h
        cases hword : lookup callee with
        | none =>
            rw [hword] at h
            cases h
            exact .unknownFunction (lookup_eq_none_iff.1 hword)
        | some word =>
            obtain ⟨hmem, rfl⟩ := lookup_eq_some_iff.1 hword
            by_cases hcount : args.length = word.arity
            · simp [hword, hcount] at h
            · simp only [hword, if_neg hcount, Option.some.injEq] at h
              subst h
              exact .arity hmem hcount
    | identifier name offset =>
        rw [fault?] at h
        cases hvalue : lookupContext name with
        | none =>
            rw [hvalue] at h
            cases h
            exact .unknownIdentifier (lookupContext_eq_none_iff.1 hvalue)
        | some value => simp [hvalue] at h
    | _ => simp [fault?] at h
  · intro h
    cases h with
    | unknownFunction hunknown => simp [fault?, lookup_eq_none_iff.2 hunknown]
    | arity hmem hcount => simp [fault?, lookup_eq_some_iff.2 ⟨hmem, rfl⟩, hcount]
    | unknownIdentifier hunknown => simp [fault?, lookupContext_eq_none_iff.2 hunknown]

/-! ## The first error -/

mutual

/-- Checking fails with the first error of a node. -/
theorem errorOf_check : ∀ e : Expr, errorOf e.check = e.nodes.findSome? fault?
  | .number value offset => rfl
  | .identifier name offset => by
      rw [check, nodes, List.findSome?_singleton, fault?]
      cases lookupContext name <;> rfl
  | .call callee args offset => by
      rw [check, nodes, List.findSome?_cons, fault?]
      cases lookup callee with
      | none => rfl
      | some word =>
          by_cases hcount : args.length = word.arity
          · simp only [hcount, ne_eq, not_true_eq_false, if_false, if_true]
            rw [errorOf_bind_pure, errorOf_checkAll args]
          · simp only [hcount, ne_eq, not_false_eq_true, if_true, if_false]
            rfl
  | .binary op left right offset => by
      show _ = (nodes left ++ nodes right).findSome? fault?
      rw [check, List.findSome?_append, ← errorOf_check left]
      refine errorOf_bind fun l => ?_
      rw [errorOf_bind_pure, errorOf_check right]
  | .negate operand offset => by
      show _ = (nodes operand).findSome? fault?
      rw [check, errorOf_bind_pure, errorOf_check operand]

theorem errorOf_checkAll : ∀ es : List Expr,
    errorOf (checkAll es) = (nodesAll es).findSome? fault?
  | [] => rfl
  | e :: rest => by
      rw [checkAll, nodesAll, List.findSome?_append, ← errorOf_check e]
      refine errorOf_bind fun c => ?_
      rw [errorOf_bind_pure, errorOf_checkAll rest]

end

end Expr

/-! ## What checking adds -/

namespace Checked

mutual

/-- A checked tree without what was looked up. -/
def erase : Checked → Expr
  | number value offset => .number value offset
  | context value offset => .identifier value.name offset
  | call _ name args offset => .call name (eraseAll args) offset
  | binary op left right offset => .binary op (erase left) (erase right) offset
  | negate operand offset => .negate (erase operand) offset

/-- Several checked trees without what was looked up. -/
def eraseAll : List Checked → List Expr
  | [] => []
  | e :: rest => erase e :: eraseAll rest

end

mutual

/-- Every call carries the function of its word in the vocabulary, and the word and the function
want as many arguments as the call has. -/
def Resolved : Checked → Prop
  | number _ _ => True
  | context _ _ => True
  | call function name args _ =>
    (∃ word ∈ vocabulary, word.name = name ∧ word.function = function ∧
      word.arity = args.length) ∧ function.arity = args.length ∧ AllResolved args
  | binary _ left right _ => Resolved left ∧ Resolved right
  | negate operand _ => Resolved operand

/-- Every call in any of the trees carries its function. -/
def AllResolved : List Checked → Prop
  | [] => True
  | e :: rest => Resolved e ∧ AllResolved rest

end

@[simp] theorem length_eraseAll (cs : List Checked) : (eraseAll cs).length = cs.length := by
  induction cs with
  | nil => rfl
  | cons c rest ih => rw [eraseAll, List.length_cons, List.length_cons, ih]

mutual

/-- A resolved tree is found again from what it erases to. -/
theorem check_erase : ∀ c : Checked, c.Resolved → c.erase.check = .ok c
  | number value offset, _ => rfl
  | context value offset, _ => by
      rw [erase, Expr.check, lookupContext_eq_some_iff.2 rfl]
  | call function name args offset, ⟨⟨word, hmem, hname, hfunction, harity⟩, _, hargs⟩ => by
      rw [erase, Expr.check, lookup_eq_some_iff.2 ⟨hmem, hname⟩]
      simp only [length_eraseAll, harity, ne_eq, not_true_eq_false, if_false]
      rw [checkAll_eraseAll args hargs, hfunction]
      rfl
  | binary op left right offset, ⟨hleft, hright⟩ => by
      rw [erase, Expr.check, check_erase left hleft, check_erase right hright]
      rfl
  | negate operand offset, hoperand => by
      rw [erase, Expr.check, check_erase operand hoperand]
      rfl

theorem checkAll_eraseAll : ∀ cs : List Checked, AllResolved cs →
    Expr.checkAll (eraseAll cs) = .ok cs
  | [], _ => rfl
  | c :: rest, ⟨hc, hrest⟩ => by
      rw [eraseAll, Expr.checkAll, check_erase c hc, checkAll_eraseAll rest hrest]
      rfl

end

end Checked

namespace Expr

mutual

/-- Checking adds functions to the tree, and nothing else. -/
theorem resolved_of_check : ∀ {e : Expr} {c : Checked}, e.check = .ok c →
    c.erase = e ∧ c.Resolved
  | .number value offset, _, h => by
      cases h
      exact ⟨rfl, trivial⟩
  | .identifier name offset, _, h => by
      rw [check] at h
      cases hvalue : lookupContext name with
      | none => simp [hvalue] at h
      | some value =>
          simp only [hvalue, Except.ok.injEq] at h
          subst h
          rw [Checked.erase, lookupContext_eq_some_iff.1 hvalue]
          exact ⟨rfl, trivial⟩
  | .call callee args offset, _, h => by
      rw [check] at h
      cases hword : lookup callee with
      | none => simp [hword] at h
      | some word =>
          obtain ⟨hmem, hname⟩ := lookup_eq_some_iff.1 hword
          by_cases hcount : args.length = word.arity
          · simp only [hword, hcount, ne_eq, not_true_eq_false, if_false] at h
            obtain ⟨cs, hcs, heq⟩ := bind_eq_ok_iff.1 h
            cases heq
            obtain ⟨herase, hresolved⟩ := resolvedAll_of_checkAll hcs
            have harity : word.arity = cs.length := by
              rw [← hcount, ← herase, Checked.length_eraseAll]
            refine ⟨by rw [Checked.erase, herase], ⟨word, hmem, hname, rfl, harity⟩, ?_, hresolved⟩
            rw [← arity_eq_of_mem_vocabulary hmem, harity]
          · simp [hword, hcount] at h
  | .binary op left right offset, _, h => by
      obtain ⟨l, hl, hmore⟩ := bind_eq_ok_iff.1 h
      obtain ⟨r, hr, heq⟩ := bind_eq_ok_iff.1 hmore
      cases heq
      obtain ⟨hleft, hlresolved⟩ := resolved_of_check hl
      obtain ⟨hright, hrresolved⟩ := resolved_of_check hr
      exact ⟨by rw [Checked.erase, hleft, hright], hlresolved, hrresolved⟩
  | .negate operand offset, _, h => by
      obtain ⟨x, hx, heq⟩ := bind_eq_ok_iff.1 h
      cases heq
      obtain ⟨hoperand, hresolved⟩ := resolved_of_check hx
      exact ⟨by rw [Checked.erase, hoperand], hresolved⟩

theorem resolvedAll_of_checkAll : ∀ {es : List Expr} {cs : List Checked}, checkAll es = .ok cs →
    Checked.eraseAll cs = es ∧ Checked.AllResolved cs
  | [], _, h => by
      cases h
      exact ⟨rfl, trivial⟩
  | e :: rest, _, h => by
      obtain ⟨c, hc, hmore⟩ := bind_eq_ok_iff.1 h
      obtain ⟨cs, hcs, heq⟩ := bind_eq_ok_iff.1 hmore
      cases heq
      obtain ⟨he, hresolved⟩ := resolved_of_check hc
      obtain ⟨hrest, hall⟩ := resolvedAll_of_checkAll hcs
      exact ⟨by rw [Checked.eraseAll, he, hrest], hresolved, hall⟩

end

/-- Checking succeeds with the resolved tree that erases to the expression. -/
theorem check_eq_ok_iff {e : Expr} {c : Checked} :
    e.check = .ok c ↔ c.erase = e ∧ c.Resolved := by
  constructor
  · exact resolved_of_check
  · rintro ⟨rfl, hresolved⟩
    exact Checked.check_erase c hresolved

/-- Checking an expression succeeds exactly if all of its nodes are known.  It gives the resolved
tree that erases to the expression, and no other.  Else it fails with what is wrong with the first
node that is not known, from the left and a call before its arguments. -/
theorem check_is_exact (e : Expr) :
    ((∃ c, e.check = .ok c) ↔ ∀ node ∈ e.nodes, node.Known) ∧
    (∀ c, e.check = .ok c ↔ c.erase = e ∧ c.Resolved) ∧
    ∀ why, e.check = .error why ↔
      ∃ before node behind, e.nodes = before ++ node :: behind ∧
        (∀ other ∈ before, other.Known) ∧ node.Offends why := by
  refine ⟨?_, fun c => check_eq_ok_iff, fun why => ?_⟩
  · rw [← errorOf_eq_none_iff, errorOf_check, List.findSome?_eq_none_iff]
    simp only [fault?_eq_none_iff]
  · rw [← errorOf_eq_some_iff, errorOf_check, List.findSome?_eq_some_iff]
    simp only [fault?_eq_none_iff, fault?_eq_some_iff, and_comm]

/-- The call is counted before its argument is looked up. -/
example : (call "delay" [call "nope" [] 6] 0).check = .error (.arity "delay" 2 1 0) := rfl

end Expr

end ToneGraph
