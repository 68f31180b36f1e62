import ToneGraph.Proofs.Graph.Filling
/-!
# Building a checked expression

An arena may be wrong in many ways, but not one that a checked expression was lowered to.  Its
parts stand where they should, and checking has counted the arguments of every call.  What is left
to fail is the sample rate and the time of a delay, and a part that delays is a call of `delay`.

## Main definitions

* `BuildError.Blames`: the errors that are left, with what they are about.

## Main statements

* `Checked.Named.of_part`: the calls in the parts of a checked expression are written as names.
* `Checked.Named.blames_of_build`: building a checked expression fails in one of two ways.
-/

namespace ToneGraph

open Synth

/-- The errors that building gives for a checked expression: no sample rate, or a call of `delay`
whose time is no constant or out of range. -/
inductive BuildError.Blames (tokens : List Token) : BuildError → (offset : Nat) → Prop
  | sampleRate {rate} : Blames tokens (.invalidSampleRate rate) 0
  | variableDelay {t} : t ∈ tokens → t.kind = .identifier → t.text = "delay" →
      Blames tokens (.variableDelay (some t.offset)) t.offset
  | delayOutOfRange {t seconds limit} : t ∈ tokens → t.kind = .identifier → t.text = "delay" →
      Blames tokens (.delayOutOfRange seconds limit (some t.offset)) t.offset

/-- Only one word of the vocabulary delays. -/
theorem name_of_delay {word : Word} (h : word ∈ vocabulary)
    (hdelay : word.function = .effect .delay) : word.name = "delay" := by
  have hall : ∀ word ∈ vocabulary, word.function = .effect .delay → word.name = "delay" := by
    decide
  exact hall word h hdelay

namespace Checked

variable {tokens : List Token} {settings : BuildSettings} {e : Checked}

theorem AllNamed.named_of_mem {es : List Checked} (h : AllNamed tokens es) :
    ∀ e ∈ es, e.Named tokens := by
  induction es with
  | nil => exact List.forall_mem_nil _
  | cons e rest ih => exact List.forall_mem_cons.2 ⟨h.1, ih h.2⟩

theorem Named.named_of_operand (h : e.Named tokens) : ∀ x ∈ e.operands, x.Named tokens := by
  cases e with
  | number | context => exact List.forall_mem_nil _
  | call function name args offset => exact h.2.2.named_of_mem
  | binary op left right offset =>
      exact List.forall_mem_cons.2 ⟨h.1, List.forall_mem_singleton.2 h.2⟩
  | negate operand offset => exact List.forall_mem_singleton.2 h

/-- The calls in the parts of a checked expression are written as names. -/
theorem Named.of_part (h : e.Named tokens) : ∀ part ∈ e.parts, part.Named tokens := by
  induction e using operand_induction with
  | hnumber value offset => exact List.forall_mem_nil _
  | hpart e hpart ih =>
      rw [parts_eq hpart, List.forall_mem_append, forall_parts, List.forall_mem_singleton]
      exact ⟨fun x hx => ih x hx (h.named_of_operand x hx), h⟩

theorem Named.arityFault?_eq_none (h : e.Named tokens) : e.arityFault? = none := by
  cases e with
  | call function name args offset =>
      obtain ⟨-, ⟨word, hmem, -, rfl, hcount⟩, -⟩ := h
      exact if_pos (hcount.trans (arity_eq_of_mem_vocabulary hmem))
  | _ => rfl

/-- What is wrong with the time of a delay is said about the call. -/
theorem Named.blames_of_timeFault? (h : e.Named tokens) {why : BuildError}
    (hfault : e.timeFault? settings = some why) : why.Blames tokens (why.origin.getD 0) := by
  unfold timeFault? at hfault
  split at hfault
  · obtain ⟨hname, ⟨word, hmem, rfl, hdelay, -⟩, -⟩ := h
    rw [name_of_delay hmem hdelay] at hname
    obtain ⟨t, ht, hkind, htext, rfl⟩ := hname
    split at hfault
    · cases hfault
      exact .variableDelay ht hkind htext
    · split at hfault
      · contradiction
      · cases hfault
        exact .delayOutOfRange ht hkind htext
  · contradiction

/-- Building a checked expression fails for want of a sample rate or at a call of `delay`. -/
theorem Named.blames_of_build (h : e.Named tokens) {why : BuildError}
    (hfail : e.build settings = .error why) : why.Blames tokens (why.origin.getD 0) := by
  obtain ⟨root, arena, harena, hfills⟩ :=
    exists_toArena fun part hpart => (h.of_part part hpart).arityFault?_eq_none
  rw [build, harena] at hfail
  replace hfail : arena.finish settings root = .error why := hfail
  by_cases hruns : settings.Runs
  · obtain ⟨part, hpart, hfault⟩ :=
      List.exists_of_findSome?_eq_some ((hfills.finish_eq_error_iff hruns).1 hfail)
    exact (h.of_part part hpart).blames_of_timeFault? hfault
  · cases (Arena.finish_of_not_runs hruns).symm.trans hfail
    exact .sampleRate

end Checked

end ToneGraph
