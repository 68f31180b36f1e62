import Mathlib.Data.List.Forall2
import ToneGraph.Proofs.Graph.Filling
import ToneGraph.Proofs.Graph.Stream
/-!
# Lowering preserves streams

The graph of an expression renders the stream of the expression.  The nodes of an expression stand
in the arena in the order of its parts, and that is how a node gets its seed: its place is the count
of the parts before it.

The node of a call keeps its state as a memory of the graph, the call itself as a unit of its own
kind.  The two runs are related once for all kinds, by a map from states to memories.

## Main definitions

* `Arena.Gives`: a signal of a finished arena gives an argument, its stream and its known value.

## Main statements

* `Checked.outputAt_part`: the node of a part runs as the part.
* `Checked.Stands.gives`: the signal of an expression gives the stream of the expression.
* `Checked.render_build`: the graph of an expression renders its stream.
-/

namespace ToneGraph

open Synth

/-! ## Runs of units -/

/-- A node runs like a unit if its memories are states of the unit and its steps are the unit's. -/
theorem Node.outputAt_eq_outputs {State : Type} {node : Node} {streams : Nat → Nat → Float}
    {clocks : Nat → Clock} {step : Nat → State → Float × State} (wrap : State → Memory)
    (hstep : ∀ n unit, node.step (wrap unit) (Signal.valueAt streams n) (clocks n).seconds
      (clocks n).sampleRate = ((step n unit).1, wrap (step n unit).2)) (start : State) :
    node.outputAt (wrap start) streams clocks = outputs step start := by
  have hstates : ∀ n, node.memoryAt (wrap start) streams clocks n = wrap (states step start n) := by
    intro n
    induction n with
    | zero => rfl
    | succ n ih => rw [Node.memoryAt, ih, hstep, states]
  funext n
  rw [Node.outputAt, hstates, hstep, outputs]

/-! ## Signals of a finished arena -/

/-- The clocks of a fresh graph. -/
def BuildSettings.clocks (settings : BuildSettings) (n : Nat) : Clock :=
  ⟨n, settings.sampleRate⟩

namespace Arena

/-- The streams of all nodes of an arena, whatever they are at nodes that have none. -/
noncomputable def streams (arena : Arena) (settings : BuildSettings) (id : Nat) : Nat → Float :=
  Classical.epsilon (arena.Flows settings settings.clocks id)

/-- What a signal reads, tick after tick. -/
def Carries (arena : Arena) (settings : BuildSettings) : Signal → (Nat → Float) → Prop
  | .constant value, s => s = fun _ => value
  | .node id, s => arena.Flows settings settings.clocks id s

/-- A signal gives an argument: it carries the stream of the argument, and its value is found with
the given budget or more exactly if the argument is known. -/
structure Gives (arena : Arena) (settings : BuildSettings) (budget : Nat) (signal : Signal)
    (arg : Argument) : Prop where
  carries : arena.Carries settings signal arg.stream
  known : ∀ more, budget ≤ more → arena.constantWithin more signal = arg.known

variable {arena : Arena} {settings : BuildSettings} {budget : Nat}

theorem streams_eq {id : Nat} {s : Nat → Float} (h : arena.Flows settings settings.clocks id s) :
    arena.streams settings id = s :=
  h.unique (Classical.epsilon_spec ⟨s, h⟩)

theorem Gives.mono {signal : Signal} {arg : Argument} (h : arena.Gives settings budget signal arg)
    {more : Nat} (hmore : budget ≤ more) : arena.Gives settings more signal arg where
  carries := h.carries
  known := fun n hn => h.known n (Nat.le_trans hmore hn)

theorem Gives.valueAt {signal : Signal} {arg : Argument}
    (h : arena.Gives settings budget signal arg) (n : Nat) :
    signal.valueAt (arena.streams settings) n = arg.stream n := by
  have hcarries := h.carries
  cases signal with
  | constant value => exact (congrFun hcarries n).symm
  | node id => exact congrFun (streams_eq hcarries) n

theorem gives_constant (arena : Arena) (settings : BuildSettings) (budget : Nat) (value : Float) :
    arena.Gives settings budget (.constant value) ⟨some value, fun _ => value⟩ where
  carries := rfl
  known := by
    intro more _
    cases more <;> rfl

theorem map_valueAt_of_gives {signals : List Signal} {args : List Argument}
    (h : List.Forall₂ (arena.Gives settings budget) signals args) (n : Nat) :
    signals.map (Signal.valueAt (arena.streams settings) n) = args.map fun arg => arg.stream n := by
  induction h with
  | nil => rfl
  | cons hfirst _ ih => rw [List.map_cons, List.map_cons, hfirst.valueAt, ih]

/-- The nodes that signals read run on the streams of the arena, if the signals give something. -/
theorem flows_of_gives {signals : List Signal} {args : List Argument}
    (h : List.Forall₂ (arena.Gives settings budget) signals args) :
    ∀ j ∈ signals.filterMap Signal.node?,
      arena.Flows settings settings.clocks j (arena.streams settings j) := by
  induction h with
  | nil => exact nofun
  | @cons s arg signals args hfirst _ ih =>
      intro j hj
      have hcarries := hfirst.carries
      cases s with
      | constant value => exact ih j hj
      | node id =>
          rcases List.mem_cons.1 hj with rfl | hj
          · rw [streams_eq hcarries]
            exact hcarries
          · exact ih j hj

/-! ## Nodes run as calls -/

private theorem exists_one {R : Signal → Argument → Prop} {signals : List Signal}
    {args : List Argument} (h : List.Forall₂ R signals args) (hlength : signals.length = 1) :
    ∃ s a, signals = [s] ∧ args = [a] ∧ R s a := by
  obtain ⟨s, rfl⟩ := List.length_eq_one_iff.1 hlength
  cases h with
  | cons hs hnil =>
      cases hnil
      exact ⟨s, _, rfl, rfl, hs⟩

private theorem exists_two {R : Signal → Argument → Prop} {signals : List Signal}
    {args : List Argument} (h : List.Forall₂ R signals args) (hlength : signals.length = 2) :
    ∃ s s' a a', signals = [s, s'] ∧ args = [a, a'] ∧ R s a ∧ R s' a' := by
  cases h with
  | nil => contradiction
  | cons hs hrest =>
      obtain ⟨s', a', rfl, rfl, hs'⟩ := exists_one hrest (Nat.succ.inj hlength)
      exact ⟨_, s', _, a', rfl, rfl, hs, hs'⟩

/-- The node of an effect runs as the effect. -/
theorem outputAt_effect {kind : EffectKind} {input : Signal} {params : List Signal} {x : Argument}
    {args : List Argument} {id : Nat} {origin : Option Nat} {start : Memory}
    (hstart : Memory.forNode settings arena id ⟨.effect kind input params, origin⟩ = .ok start)
    (hsize : budget ≤ arena.size) (hcount : params.length = kind.paramCount)
    (hinput : arena.Gives settings budget input x)
    (hparams : List.Forall₂ (arena.Gives settings budget) params args) :
    (Node.effect kind input params).outputAt start (arena.streams settings) settings.clocks =
      kind.stream settings.sampleRate x.stream args := by
  have hx := hinput.valueAt
  cases kind with
  | delay =>
      obtain ⟨p, arg, rfl, rfl, hp⟩ := exists_one hparams hcount
      obtain ⟨known, stream⟩ := arg
      have hknown : arena.constant? p = known := hp.known arena.size hsize
      have hline : Memory.delayLine settings arena _ [p] = .ok start := hstart
      rw [Memory.delayLine, List.head?_cons, Option.bind_some, hknown] at hline
      cases known with
      | none => contradiction
      | some seconds =>
          dsimp only at hline
          split at hline
          · contradiction
          · cases hline
            rw [EffectKind.stream]
            refine Node.outputAt_eq_outputs .delay (fun n unit => ?_) _
            simp only [Node.step, stepEffect, hx]
  | reverb =>
      obtain ⟨p, arg, rfl, rfl, hp⟩ := exists_one hparams hcount
      cases hstart
      rw [EffectKind.stream]
      refine Node.outputAt_eq_outputs .reverb (fun n unit => ?_) _
      simp only [Node.step, stepEffect, hx, List.map_cons, List.getD_cons_zero, hp.valueAt]
  | lowpass | highpass =>
      obtain ⟨p, arg, rfl, rfl, hp⟩ := exists_one hparams hcount
      cases hstart
      rw [EffectKind.stream]
      refine Node.outputAt_eq_outputs .filter (fun n unit => ?_) _
      simp only [Node.step, stepEffect, hx, List.map_cons, List.getD_cons_zero, hp.valueAt]
  | bandpass =>
      obtain ⟨p, q, a, b, rfl, rfl, hp, hq⟩ := exists_two hparams hcount
      cases hstart
      rw [EffectKind.stream]
      refine Node.outputAt_eq_outputs .filter (fun n unit => ?_) _
      simp only [Node.step, stepEffect, hx, List.map_cons, List.getD_cons_zero, hp.valueAt,
        List.getD_cons_succ, hq.valueAt]
  | distortion =>
      obtain ⟨p, arg, rfl, rfl, hp⟩ := exists_one hparams hcount
      funext n
      simp only [Node.outputAt, Node.step, stepEffect, hx, List.map_cons, List.getD_cons_zero,
        hp.valueAt, EffectKind.stream]
  | chorus | flanger =>
      obtain ⟨p, q, a, b, rfl, rfl, hp, hq⟩ := exists_two hparams hcount
      cases hstart
      rw [EffectKind.stream]
      refine Node.outputAt_eq_outputs .swept (fun n unit => ?_) _
      simp only [Node.step, stepEffect, hx, List.map_cons, List.getD_cons_zero, hp.valueAt,
        List.getD_cons_succ, hq.valueAt]
  | phaser =>
      obtain ⟨p, q, a, b, rfl, rfl, hp, hq⟩ := exists_two hparams hcount
      cases hstart
      rw [EffectKind.stream]
      refine Node.outputAt_eq_outputs .phaser (fun n unit => ?_) _
      simp only [Node.step, stepEffect, hx, List.map_cons, List.getD_cons_zero, hp.valueAt,
        List.getD_cons_succ, hq.valueAt]

private theorem exists_three {R : Signal → Argument → Prop} {signals : List Signal}
    {args : List Argument} (h : List.Forall₂ R signals args) (hlength : signals.length = 3) :
    ∃ s s' s'' a a' a'', signals = [s, s', s''] ∧ args = [a, a', a''] ∧
      R s a ∧ R s' a' ∧ R s'' a'' := by
  cases h with
  | nil => contradiction
  | cons hs hrest =>
      obtain ⟨s', s'', a', a'', rfl, rfl, hs', hs''⟩ := exists_two hrest (Nat.succ.inj hlength)
      exact ⟨_, s', s'', _, a', a'', rfl, rfl, hs, hs', hs''⟩

/-- The node of a call runs as the call. -/
theorem outputAt_call {function : Function} {inputs : List Signal} {args : List Argument}
    {node : Node} {id : Nat} {origin : Option Nat} {start : Memory}
    (hnode : function.node? inputs = some node)
    (hstart : Memory.forNode settings arena id ⟨node, origin⟩ = .ok start)
    (hsize : budget ≤ arena.size)
    (hinputs : List.Forall₂ (arena.Gives settings budget) inputs args) :
    node.outputAt start (arena.streams settings) settings.clocks =
      function.stream settings.sampleRate (nodeSeed settings.seed id) args := by
  have hlength := (Function.inputs_of_node? hnode).1
  cases function with
  | oscillator waveform =>
      obtain ⟨frequency, arg, rfl, rfl, hfrequency⟩ := exists_one hinputs hlength
      cases hnode
      cases hstart
      rw [Function.stream]
      refine Node.outputAt_eq_outputs .oscillator (fun n unit => ?_) _
      simp only [Node.step, hfrequency.valueAt]
      rfl
  | noise color =>
      cases List.length_eq_zero_iff.1 hlength
      cases hinputs
      cases hnode
      cases hstart
      exact Node.outputAt_eq_outputs .noise (fun n unit => rfl) _
  | random =>
      cases List.length_eq_zero_iff.1 hlength
      cases hinputs
      cases hnode
      cases hstart
      exact Node.outputAt_eq_outputs .random (fun n unit => rfl) _
  | ramp =>
      obtain ⟨first, last, duration, a, b, c, rfl, rfl, hfirst, hlast, hduration⟩ :=
        exists_three hinputs hlength
      cases hnode
      funext n
      simp only [Node.outputAt, Node.step, hfirst.valueAt, hlast.valueAt, hduration.valueAt,
        Function.stream]
      rfl
  | math op =>
      have hlength : inputs.length = op.arity := hlength
      rw [Function.node?, if_pos hlength] at hnode
      cases hnode
      funext n
      simp only [Node.outputAt, Node.step, Node.take_inputs hlength, map_valueAt_of_gives hinputs,
        Function.stream]
  | effect kind =>
      cases hinputs with
      | nil => contradiction
      | @cons input x params args hinput hparams =>
          have hcount : params.length = kind.paramCount := by
            rw [List.length_cons, Function.arity, Nat.add_comm 1] at hlength
            exact Nat.succ.inj hlength
          rw [Function.node?, if_pos hcount] at hnode
          cases hnode
          exact outputAt_effect hstart hsize hcount hinput hparams

end Arena

/-! ## Expressions -/

namespace Checked

variable {e : Checked} {settings : BuildSettings} {whole : Arena}

/-- What an expression means as an argument, behind `k` parts that are not numbers. -/
def argument (settings : BuildSettings) (k : Nat) (e : Checked) : Argument :=
  ⟨e.known, e.stream settings k⟩

/-- The node of a part runs as the part. -/
theorem outputAt_part {k : Nat} {node : Node} {start : Memory}
    (hnode : e.node? (signals k e.operands) = some node)
    (hstart : Memory.forNode settings whole (k + unitsAll e.operands) ⟨node, some e.offset⟩ =
      .ok start)
    (hsize : k + unitsAll e.operands ≤ whole.size)
    (hgives : List.Forall₂ (whole.Gives settings (k + unitsAll e.operands))
      (signals k e.operands) (streamAll settings k e.operands)) :
    node.outputAt start (whole.streams settings) settings.clocks = e.stream settings k := by
  cases e with
  | number value offset => contradiction
  | context value offset =>
      cases value
      cases hnode
      rfl
  | call function name args offset =>
      rw [Arena.outputAt_call hnode hstart hsize hgives]
      rfl
  | binary op left right offset =>
      cases hnode
      obtain ⟨hleft, hright⟩ := List.forall₂_cons.1 hgives
      have hl := hleft.valueAt
      have hr := (List.forall₂_cons.1 hright).1.valueAt
      funext n
      simp only [Node.outputAt, Node.step, stream, hl, hr]
  | negate operand offset =>
      cases hnode
      have hx := (List.forall₂_cons.1 hgives).1.valueAt
      funext n
      simp only [Node.outputAt, Node.step, stream, hx]
      rfl

mutual

/-- The signal of an expression gives what the expression means, in every arena in which its nodes
stand and every cell has a memory. -/
theorem Stands.gives (hmemory : ∀ (id : Nat) (cell : Cell), whole[id]? = some cell →
      ∃ start, Memory.forNode settings whole id cell = .ok start) :
    ∀ {e : Checked} {k : Nat}, Stands whole k e →
      whole.Gives settings (k + e.units) (e.signal k) (e.argument settings k)
  | _, k, @Stands.number _ _ value _ => Arena.gives_constant whole settings k value
  | e, k, .part hpart hoperands hnode hcell => by
      refine ⟨?_, fun more hmore =>
        (Stands.part hpart hoperands hnode hcell).constantWithin_eq hmore⟩
      have hgives := hoperands.gives hmemory
      obtain ⟨start, hstart⟩ := hmemory _ _ hcell
      obtain ⟨hlt, -⟩ := Array.getElem?_eq_some_iff.1 hcell
      rw [signal_part hpart]
      show whole.Flows settings settings.clocks _ (e.stream settings k)
      rw [← outputAt_part hnode hstart (Nat.le_of_lt hlt) hgives]
      exact .node hcell hstart ((complete_of_node? hnode).2 ▸ Arena.flows_of_gives hgives)

theorem StandsAll.gives (hmemory : ∀ (id : Nat) (cell : Cell), whole[id]? = some cell →
      ∃ start, Memory.forNode settings whole id cell = .ok start) :
    ∀ {es : List Checked} {k : Nat}, StandsAll whole k es →
      List.Forall₂ (whole.Gives settings (k + unitsAll es)) (signals k es)
        (streamAll settings k es)
  | _, _, .nil => .nil
  | _, _, @StandsAll.cons _ k e rest hfirst hrest => by
      have hmore := hrest.gives hmemory
      rw [Nat.add_assoc] at hmore
      exact .cons ((hfirst.gives hmemory).mono (by rw [unitsAll]; omega)) hmore

end

/-- The root of a finished graph gives the stream of the expression that the graph was built of. -/
theorem flows_of_toArena {root : Nat} (h : e.toArena = .ok (root, whole))
    (hmemory : ∀ (id : Nat) (cell : Cell), whole[id]? = some cell →
      ∃ start, Memory.forNode settings whole id cell = .ok start) :
    whole.Flows settings settings.clocks root (e.stream settings 0) := by
  cases fills_of_toArena h with
  | @number value offset =>
      let cell : Cell := ⟨.constant value, some offset⟩
      have houtput : cell.node.outputAt .none (fun _ _ => value) settings.clocks =
          (Checked.number value offset).stream settings 0 := rfl
      have hcell : #[cell][0]? = some cell := rfl
      rw [← houtput]
      exact .node hcell rfl nofun
  | part hpart hsize hstands =>
      have hgives := (hstands.gives hmemory).carries
      rwa [signal_part hpart, Nat.zero_add] at hgives

/-- The graph of an expression renders the stream of the expression. -/
theorem render_build {settings : BuildSettings} {e : Checked} {g : Graph}
    (hbuild : e.build settings = .ok g) (n : Nat) :
    (g.render n).1.toList = (List.range n).map (e.stream settings 0) := by
  obtain ⟨⟨root, arena⟩, harena, hfinish⟩ := bind_eq_ok_iff.1 hbuild
  have hmemory : ∀ (id : Nat) (cell : Cell), arena[id]? = some cell →
      ∃ start, Memory.forNode settings arena id cell = .ok start := by
    intro id cell hcell
    obtain ⟨start, _, hstart⟩ := Graph.start_of_finish hfinish hcell
    exact ⟨start, hstart⟩
  have hflows := Graph.flows_of_finish hfinish settings.clocks (.refl arena root)
  rw [Graph.render_of_finish hfinish, hflows.unique (flows_of_toArena harena hmemory)]
  rfl

/-- The graph of twice a noise renders twice what the noise draws from the seed itself. -/
theorem render_twice_noise :
    let e : Checked := .binary .mul (.number 2.0 0) (.call (.noise .white) "noise" [] 4) 2
    ∃ g, e.build ⟨48000.0, defaultSeed, defaultMaxDelay⟩ = .ok g ∧
      (g.render 2).1.toList = (List.range 2).map fun n =>
        2.0 * outputs (fun _ unit => unit.step) (NoiseSource.ofSeed .white defaultSeed) n := by
  intro e
  let arena : Arena :=
    #[⟨.noise .white, some 4⟩, ⟨.arithmetic .mul (.constant 2.0) (.node 0), some 2⟩]
  have horder : arena.order 1 = .ok [0, 1] := by
    simp [Arena.order, Arena.search_enter, Arena.search, Arena.inputsOf, Node.inputNodes,
      Node.inputs, Signal.node?, List.filterMap, arena]
  have hfinish : arena.finish ⟨48000.0, defaultSeed, defaultMaxDelay⟩ 1 = .ok _ :=
    Arena.finish_eq_ok_iff.2 ⟨if_pos (by decide), by decide, rfl, _, _, horder, rfl, rfl⟩
  have hbuild : e.build ⟨48000.0, defaultSeed, defaultMaxDelay⟩ = .ok _ := hfinish
  exact ⟨_, hbuild, render_build hbuild 2⟩

end Checked

end ToneGraph
