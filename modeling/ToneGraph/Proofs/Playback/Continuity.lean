import Mathlib.Data.List.Nodup
import ToneGraph.Proofs.Playback.Custody
import ToneGraph.Proofs.Playback.InForce
/-!
# Continuity of playback

What is heard of a graph over all blocks, in a row, is the beginning of the stream that its source
renders from the first tick on.

Two things make it so.  On the control side, a graph that is accepted is what one run has compiled,
with the settings in force when the run began: nothing else happens on that side until the graph is
sent.  On the audio side, a graph is changed by rendering only, and what a block renders continues
what was rendered before.  The voice plays a graph that was sent before all that wait, or one of
those, and numbers rise, so no graph is taken up again once another has begun.

## Main definitions

* `Voice.pull`: what a block takes from the graph that plays, one value for each frame.
* `Moment.Origin`: the run that a graph comes from.

## Main statements

* `Moment.origin_of_accepted`: every accepted graph comes from a run.
* `Moment.Played.act`: what has been heard of each graph is a beginning of its stream.
* `Moment.blocks_continue_one_stream`: both together, with the samples of every block.
-/

namespace ToneGraph

open Synth

/-! ## Rendering in parts -/

namespace Graph

/-- The number of a graph has no part in rendering. -/
theorem renderOnto_numbered (out : Array Float) (n : Nat) (g : Graph) (k : Nat) :
    renderOnto out n (g.numbered k) =
      ((renderOnto out n g).1, (renderOnto out n g).2.numbered k) := by
  induction n generalizing out g with
  | zero => rfl
  | succ n ih =>
      have hnext : (g.numbered k).next = (g.next.1, g.next.2.numbered k) := rfl
      rw [renderOnto, renderOnto, hnext]
      exact ih _ _

theorem render_numbered (g : Graph) (k n : Nat) :
    (g.numbered k).render n = ((g.render n).1, (g.render n).2.numbered k) :=
  renderOnto_numbered #[] n g k

theorem renderOnto_snd (out : Array Float) (n : Nat) (g : Graph) :
    (renderOnto out n g).2 = (g.render n).2 := by
  suffices h : ∀ outs, (renderOnto outs n g).2 = (renderOnto out n g).2 from (h #[]).symm
  induction n generalizing out g with
  | zero => exact fun _ => rfl
  | succ n ih => exact fun outs => ih _ _ _

theorem renderOnto_fst (out : Array Float) (n : Nat) (g : Graph) :
    (renderOnto out n g).1.toList = out.toList ++ (g.render n).1.toList := by
  rw [render, renderOnto_toList, renderOnto_toList]
  rfl

theorem renderOnto_add (out : Array Float) (a b : Nat) (g : Graph) :
    renderOnto out (a + b) g = renderOnto (renderOnto out a g).1 b (renderOnto out a g).2 := by
  induction a generalizing out g with
  | zero => rw [Nat.zero_add, renderOnto]
  | succ a ih =>
      rw [Nat.add_right_comm, renderOnto, renderOnto]
      exact ih _ _

/-- Rendering goes on where it stopped. -/
theorem render_add (g : Graph) (a b : Nat) :
    (g.render (a + b)).1.toList = (g.render a).1.toList ++ ((g.render a).2.render b).1.toList ∧
      (g.render (a + b)).2 = ((g.render a).2.render b).2 := by
  have hsplit : g.render (a + b) = renderOnto (g.render a).1 b (g.render a).2 :=
    renderOnto_add #[] a b g
  refine ⟨?_, ?_⟩
  · rw [hsplit, renderOnto_fst]
  · rw [hsplit, renderOnto_snd]

end Graph

/-! ## The samples of a block -/

namespace Voice

/-- What a block takes from the graph that plays, one value for each frame. -/
def pull (v : Voice) (samples : Nat) : List Float :=
  match v.graph with
  | none => []
  | some g => (g.render (framesFor v.channels samples)).1.toList

theorem pull_of_some {v : Voice} {g : Graph} (h : v.graph = some g) (samples : Nat) :
    v.pull samples = (g.render (framesFor v.channels samples)).1.toList := by
  rw [pull, h]

theorem play_fst (v : Voice) (samples : Nat) :
    (v.play samples).1 = (v.pull samples).map (level v.limiter v.volume) := by
  obtain ⟨graph, volume, limiter, channels, hpos⟩ := v
  cases graph <;> rfl

theorem graph_play (v : Voice) (samples : Nat) :
    (v.play samples).2.graph =
      v.graph.map fun g => (g.render (framesFor v.channels samples)).2 := by
  obtain ⟨graph, volume, limiter, channels, hpos⟩ := v
  cases graph <;> rfl

/-- All channels of a frame have its sample. -/
theorem getElem?_flatMap_replicate {channels : Nat} (hpos : 0 < channels) (frames : List Float32)
    (i : Nat) : (frames.flatMap (List.replicate channels))[i]? = frames[i / channels]? := by
  induction frames generalizing i with
  | nil => rfl
  | cons x rest ih =>
      rw [List.flatMap_cons, List.getElem?_append, List.length_replicate]
      by_cases hi : i < channels
      · rw [if_pos hi, List.getElem?_replicate, if_pos hi, Nat.div_eq_of_lt hi]
        rfl
      · have hle : channels ≤ i := Nat.le_of_not_lt hi
        rw [if_neg hi, ih, Nat.div_eq_sub_div hpos hle]
        rfl

theorem getElem?_interleave {channels samples i : Nat} (hpos : 0 < channels) (hi : i < samples)
    (frames : List Float32) :
    (interleave channels samples frames)[i]? = frames[i / channels]? := by
  rw [interleave, List.getElem?_take, if_pos hi, getElem?_flatMap_replicate hpos]

/-- The limiter and the number of channels, which are set once for all. -/
def setup (v : Voice) : Limiter × Nat :=
  (v.limiter, v.channels)

theorem setup_obey (v : Voice) (retired : BoundedQueue Graph) (c : Command) :
    (obey (v, retired) c).1.setup = v.setup := by
  have hretire : (v.retire retired).1.setup = v.setup := by
    unfold retire
    split <;> rfl
  cases c with
  | play | stop => exact hretire
  | setVolume => rfl

theorem setup_foldl_obey (commands : List Command) (v : Voice) (retired : BoundedQueue Graph) :
    (commands.foldl obey (v, retired)).1.setup = v.setup := by
  induction commands generalizing v retired with
  | nil => rfl
  | cons c rest ih =>
      rw [List.foldl_cons, ← setup_obey v retired c]
      exact ih _ _

theorem setup_play (v : Voice) (samples : Nat) : (v.play samples).2.setup = v.setup := by
  obtain ⟨graph, volume, limiter, channels, hpos⟩ := v
  cases graph <;> rfl

/-- A graph that plays after some commands played before them, or one of them brings it. -/
theorem graph_foldl_obey {commands : List Command} {v : Voice} {retired : BoundedQueue Graph}
    {g : Graph} (h : (commands.foldl obey (v, retired)).1.graph = some g) :
    v.graph = some g ∨ g ∈ graphsOf commands := by
  induction commands generalizing v retired with
  | nil => exact .inl h
  | cons c rest ih =>
      rw [mem_graphsOf]
      rcases ih h with hnow | hlater
      · cases c with
        | play g' =>
            have heq : g' = g := Option.some.inj hnow
            exact .inr (heq ▸ List.mem_cons_self)
        | stop => exact absurd ((graph_retire v retired).symm.trans hnow) nofun
        | setVolume x => exact .inl hnow
      · exact .inr (List.mem_cons_of_mem _ (mem_graphsOf.1 hlater))

end Voice

namespace Session

variable {s : Session}

theorem process_fst_of_none (h : s.drain.voice.graph = none) (samples : Nat) :
    (s.process samples).1 = List.replicate samples 0.0 := by
  unfold process
  split
  next control commands retired scope voice hdrain =>
    rw [hdrain] at h
    rw [if_pos (Option.isNone_iff_eq_none.2 h)]

theorem process_fst_of_some {g : Graph} (h : s.drain.voice.graph = some g) (samples : Nat) :
    (s.process samples).1 = Voice.interleave s.drain.voice.channels samples
      (s.drain.voice.play samples).1 := by
  unfold process
  split
  next control commands retired scope voice hdrain =>
    rw [hdrain] at h ⊢
    have hsome : ¬ voice.graph.isNone := by
      rw [h]
      nofun
    rw [if_neg hsome]

/-- A sample of a block in which a graph plays is the value of its frame, as loud as the limiter and
the volume let it be. -/
theorem getElem?_process {g : Graph} (h : s.drain.voice.graph = some g) {samples i : Nat}
    (hi : i < samples) :
    let voice := s.drain.voice
    ∃ x, (voice.pull samples)[i / voice.channels]? = some x ∧
      (s.process samples).1[i]? = some (Voice.level voice.limiter voice.volume x) := by
  intro voice
  have hframe : i / voice.channels < (voice.pull samples).length := by
    rw [Voice.pull_of_some h, Array.length_toList, Graph.size_render,
      Nat.div_lt_iff_lt_mul voice.channels_pos]
    exact Nat.lt_of_lt_of_le hi (Voice.le_framesFor_mul voice.channels_pos samples)
  have hx := List.getElem?_eq_getElem hframe
  refine ⟨_, hx, ?_⟩
  rw [process_fst_of_some h, Voice.getElem?_interleave voice.channels_pos hi, Voice.play_fst,
    List.getElem?_map, hx]
  rfl

end Session

/-! ## Where a graph comes from -/

/-- The source that a run is about to build. -/
def Phase.pending? : Phase → Option String
  | .replacing source | .silenced source => some source
  | .ready | .stopping | .built _ => none

namespace Moment

/-- A source that is about to be built was so before, or its run begins.  Meanwhile no setting
changes. -/
theorem act_pending {m : Moment} {action : Action} {source : String}
    (h : (m.act action).phase.pending? = some source) :
    (m.phase.pending? = some source ∨ m.phase = .ready ∧ action = .run source) ∧
      (m.act action).session.control.settings = m.session.control.settings := by
  obtain ⟨s, phase⟩ := m
  cases action with
  | block samples =>
      obtain ⟨hcontrol, -⟩ := s.process_effect samples
      exact ⟨.inl h, congrArg Control.settings hcontrol⟩
  | readScope count => exact ⟨.inl h, congrArg Control.settings (s.control_readScope count)⟩
  | run other =>
      cases phase with
      | ready => exact ⟨.inr ⟨rfl, congrArg Action.run (Option.some.inj h)⟩, rfl⟩
      | _ => exact ⟨.inl h, rfl⟩
  | reclaim | takeScope | setVolume | setSeed | stop =>
      cases phase with
      | ready => contradiction
      | _ => exact ⟨.inl h, rfl⟩
  | proceed =>
      cases phase with
      | ready | stopping | built => contradiction
      | replacing other =>
          have hhalt : s.halt.2.control.settings = s.control.settings := by
            rcases s.halt_effect with hsame | ⟨-, -, hcontrol⟩
            · rw [hsame]
            · rw [hcontrol]
          rcases act_replacing s other with hact | hact
          · rw [hact] at h
            contradiction
          · rw [hact] at h ⊢
            exact ⟨.inl h, hhalt⟩
      | silenced other =>
          rcases act_silenced s other with ⟨t, hact, -⟩ | ⟨g, t, -, hact, -⟩
          · rw [hact] at h
            contradiction
          · rw [hact] at h
            contradiction

/-- A run of a source began when the control side was ready, and has not ended since. -/
def Underway (m : Moment) (before : List Action) (source : String) (during : List Action) : Prop :=
  (m.after before).phase = .ready ∧
    ∀ first, first <+: during → (m.after (before ++ .run source :: first)).phase ≠ .ready

/-- The run that a graph comes from.  It has built the graph of its source, with the settings in
force when it began, and has given it a number. -/
def Origin (m : Moment) (actions : List Action) (k : Nat) (g : Graph) : Prop :=
  ∃ before source during rest, actions = before ++ .run source :: (during ++ rest) ∧
    m.Underway before source during ∧
    (m.after (before ++ .run source :: during)).phase = .built (g.numbered k) ∧
    compile (m.after before).session.control.settings source = .ok g

variable {m : Moment}

theorem Underway.concat {before during : List Action} {source : String} {action : Action}
    (h : m.Underway before source during)
    (hnow : (m.after (before ++ .run source :: (during ++ [action]))).phase ≠ .ready) :
    m.Underway before source (during ++ [action]) := by
  refine ⟨h.1, ?_⟩
  intro first hfirst
  rcases List.prefix_concat_iff.1 hfirst with rfl | hearlier
  · exact hnow
  · exact h.2 first hearlier

theorem Origin.concat {actions : List Action} {k : Nat} {g : Graph} (h : m.Origin actions k g)
    (action : Action) : m.Origin (actions ++ [action]) k g := by
  obtain ⟨before, source, during, rest, rfl, hunderway, hbuilt, hcompile⟩ := h
  refine ⟨before, source, during, rest ++ [action], ?_, hunderway, hbuilt, hcompile⟩
  rw [List.append_assoc, List.cons_append, List.append_assoc]

/-- A graph as a run has built it. -/
def Fresh (m : Moment) (actions : List Action) (g : Graph) : Prop :=
  ∃ g₀, m.Origin actions g.generation g₀ ∧ g = g₀.numbered g.generation

theorem Fresh.concat {actions : List Action} {g : Graph} (h : m.Fresh actions g)
    (action : Action) : m.Fresh (actions ++ [action]) g := by
  obtain ⟨g₀, horigin, hnumber⟩ := h
  exact ⟨g₀, horigin.concat action, hnumber⟩

/-- What is known of runs and graphs on the control side. -/
structure Traced (m : Moment) (past : List Action) : Prop where
  pending : ∀ source, (m.after past).phase.pending? = some source →
    ∃ before during, past = before ++ .run source :: during ∧ m.Underway before source during ∧
      (m.after past).session.control.settings = (m.after before).session.control.settings
  built : ∀ g, (m.after past).phase = .built g → m.Fresh past g
  accepted : ∀ g ∈ gather accepted m past, m.Fresh past g

/-- One more action: a run that begins is under way, and a graph that is built comes from the run
under way. -/
theorem Traced.concat {past : List Action} (h : m.Traced past) (action : Action) :
    m.Traced (past ++ [action]) := by
  have hafter : m.after (past ++ [action]) = (m.after past).act action := after_concat m past action
  refine ⟨?_, ?_, ?_⟩
  · intro source hsource
    have hbusy : (m.after (past ++ [action])).phase ≠ .ready := by
      intro hready
      rw [hready] at hsource
      contradiction
    rw [hafter] at hsource
    obtain ⟨hpending | ⟨hready, rfl⟩, hsettings⟩ := act_pending hsource
    · obtain ⟨before, during, rfl, hunderway, hsame⟩ := h.pending source hpending
      refine ⟨before, during ++ [action], ?_, hunderway.concat ?_, ?_⟩
      · rw [List.append_assoc, List.cons_append]
      · rwa [List.append_assoc, List.cons_append] at hbusy
      · rw [hafter, hsettings, hsame]
    · refine ⟨past, [], rfl, ⟨hready, ?_⟩, ?_⟩
      · intro first hfirst
        rw [List.prefix_nil.1 hfirst]
        exact hbusy
      · rw [hafter, hsettings]
  · intro g hg
    rcases act_numbers (m.after past) action with
      ⟨source, g₀, hsilenced, hcompile, hphase, -⟩ | ⟨hphase, -⟩
    · obtain rfl := Phase.built.inj (hphase.symm.trans (hafter ▸ hg))
      have hpending : (m.after past).phase.pending? = some source := by
        rw [hsilenced]
        rfl
      obtain ⟨before, during, rfl, hunderway, hsame⟩ := h.pending source hpending
      rw [List.append_assoc, List.cons_append] at hg ⊢
      refine ⟨g₀, ⟨before, source, during ++ [action], [], ?_, hunderway.concat ?_, hg, ?_⟩, rfl⟩
      · rw [List.append_nil]
      · rw [hg]
        nofun
      · rw [← hsame]
        exact hcompile
    · rw [hafter] at hg
      exact (h.built g (hphase g hg)).concat action
  · intro g hg
    rw [gather_concat] at hg
    rcases List.mem_append.1 hg with hearlier | hlast
    · exact (h.accepted g hearlier).concat action
    · rcases act_numbers (m.after past) action with
        ⟨source, g₀, -, -, -, hnone, -⟩ | ⟨-, hnone | ⟨g', hbuilt, hone, -⟩, -⟩
      · rw [hnone] at hlast
        contradiction
      · rw [hnone] at hlast
        contradiction
      · rw [hone] at hlast
        rw [List.mem_singleton.1 hlast]
        exact (h.built g' hbuilt).concat action

theorem traced (hready : m.phase = .ready) (actions : List Action) : m.Traced actions := by
  refine history_induction (P := fun past _ => m.Traced past) (m := m) ?_
    (fun _ action h => h.concat action) actions
  refine ⟨?_, ?_, nofun⟩
  · intro source hsource
    rw [show (m.after []).phase = .ready from hready] at hsource
    contradiction
  · intro g hg
    rw [show (m.after []).phase = .ready from hready] at hg
    contradiction

/-! ## What has been heard of a graph -/

/-- What a block takes from the graph of a number. -/
def pulled (k : Nat) : Moment → Action → List Float
  | ⟨s, _⟩, .block samples =>
    if s.drain.voice.generation? = some k then s.drain.voice.pull samples else []
  | _, _ => []

/-- What has been heard of the graphs that have begun is a beginning of their streams, and the graph
that plays is one of them, as far as it has been heard.  Of no other graph has anything been
heard. -/
structure Played (m : Moment) (past : List Action) (graphs : List Graph) (live : Option Graph) :
    Prop where
  begun : ∀ g ∈ graphs, ∃ n, gather (pulled g.generation) m past = (g.render n).1.toList
  live : ∀ g', live = some g' → ∃ g ∈ graphs, ∃ n, g' = (g.render n).2 ∧
    gather (pulled g.generation) m past = (g.render n).1.toList
  other : ∀ k, k ∉ graphs.map Graph.generation → gather (pulled k) m past = []

variable {past : List Action} {graphs : List Graph} {live : Option Graph}

/-- Where nothing more has been heard, all of this stays, even if the graph that played has
stopped. -/
theorem Played.of_same {later : List Action} {next : Option Graph} (h : m.Played past graphs live)
    (hsame : ∀ k, gather (pulled k) m later = gather (pulled k) m past)
    (hnext : ∀ g, next = some g → live = some g) : m.Played later graphs next := by
  refine ⟨?_, ?_, ?_⟩
  · intro g hg
    rw [hsame]
    exact h.begun g hg
  · intro g' hg'
    obtain ⟨g, hg, n, hrest, hheard⟩ := h.live g' (hnext g' hg')
    exact ⟨g, hg, n, hrest, (hsame g.generation).trans hheard⟩
  · intro k hk
    rw [hsame]
    exact h.other k hk

/-- Graphs may begin of which nothing has been heard, and the one that plays may be any of them or
none. -/
theorem Played.append (h : m.Played past graphs live) {more : List Graph} {next : Option Graph}
    (hnew : ∀ g ∈ more, g.generation ∉ graphs.map Graph.generation)
    (hnext : ∀ g, next = some g → live = some g ∨ g ∈ more) :
    m.Played past (graphs ++ more) next := by
  have hnothing : ∀ g ∈ more, gather (pulled g.generation) m past = (g.render 0).1.toList :=
    fun g hg => h.other g.generation (hnew g hg)
  refine ⟨?_, ?_, ?_⟩
  · intro g hg
    rcases List.mem_append.1 hg with hold | hmore
    · exact h.begun g hold
    · exact ⟨0, hnothing g hmore⟩
  · intro g' hg'
    rcases hnext g' hg' with hlive | hmore
    · obtain ⟨g, hg, hheard⟩ := h.live g' hlive
      exact ⟨g, List.mem_append_left more hg, hheard⟩
    · exact ⟨g', List.mem_append_right graphs hmore, 0, rfl, hnothing g' hmore⟩
  · intro k hk
    rw [List.map_append] at hk
    exact h.other k fun hold => hk (List.mem_append_left _ hold)

theorem pulled_of_not_block {action : Action} (h : ¬ ∃ samples, action = .block samples) (k : Nat) :
    pulled k m action = [] := by
  cases action with
  | block samples => exact absurd ⟨samples, rfl⟩ h
  | _ => rfl

theorem eq_of_same_number (hnumbers : (graphs.map Graph.generation).Pairwise (· < ·)) {g g' : Graph}
    (hg : g ∈ graphs) (hg' : g' ∈ graphs) (h : g.generation = g'.generation) : g = g' := by
  have hnodup : (graphs.map Graph.generation).Nodup := hnumbers.imp fun hlt => Nat.ne_of_lt hlt
  exact List.inj_on_of_nodup_map hnodup hg hg' h

theorem gather_pulled_of_ne {k samples : Nat}
    (h : (m.after past).session.drain.voice.generation? ≠ some k) :
    gather (pulled k) m (past ++ [.block samples]) = gather (pulled k) m past := by
  have hnothing : pulled k (m.after past) (.block samples) = [] := if_neg h
  rw [gather_concat, hnothing, List.append_nil]

/-- A block goes on with the stream of the graph that plays, and with no other. -/
theorem Played.block (hnumbers : (graphs.map Graph.generation).Pairwise (· < ·))
    (h : m.Played past graphs (m.after past).session.drain.voice.graph) (samples : Nat) :
    m.Played (past ++ [.block samples]) graphs
      ((m.after past).act (.block samples)).session.voice.graph := by
  obtain ⟨-, -, -, hvoice⟩ := (m.after past).session.process_effect samples
  rw [session_block, hvoice, Voice.graph_play]
  cases hlive : (m.after past).session.drain.voice.graph with
  | none =>
      have hsame : ∀ k, gather (pulled k) m (past ++ [.block samples]) =
          gather (pulled k) m past := by
        intro k
        refine gather_pulled_of_ne ?_
        rw [Voice.generation?, hlive]
        exact (Option.some_ne_none k).symm
      exact h.of_same hsame fun next hnext => absurd hnext.symm (Option.some_ne_none next)
  | some g' =>
      obtain ⟨g, hg, n, hrest, hheard⟩ := h.live g' hlive
      have hgeneration : g'.generation = g.generation := by
        rw [hrest]
        exact Graph.generation_renderOnto #[] n g
      have hplays : (m.after past).session.drain.voice.generation? = some g.generation := by
        rw [Voice.generation?, hlive, ← hgeneration]
        rfl
      have hsame : ∀ k, k ≠ g.generation → gather (pulled k) m (past ++ [.block samples]) =
          gather (pulled k) m past := by
        intro k hk
        refine gather_pulled_of_ne ?_
        rw [hplays]
        exact fun heq => hk (Option.some.inj heq).symm
      let frames := Voice.framesFor (m.after past).session.drain.voice.channels samples
      obtain ⟨hsamples, hgraph⟩ := g.render_add n frames
      have hlonger : gather (pulled g.generation) m (past ++ [.block samples]) =
          (g.render (n + frames)).1.toList := by
        have hpulled : pulled g.generation (m.after past) (.block samples) =
            (m.after past).session.drain.voice.pull samples := if_pos hplays
        rw [gather_concat, hpulled, Voice.pull_of_some hlive, hheard, hrest]
        exact hsamples.symm
      refine ⟨?_, ?_, ?_⟩
      · intro other hother
        by_cases hk : other.generation = g.generation
        · rw [eq_of_same_number hnumbers hother hg hk]
          exact ⟨n + frames, hlonger⟩
        · rw [hsame _ hk]
          exact h.begun other hother
      · intro next hnext
        rw [Option.map_some, hrest] at hnext
        exact ⟨g, hg, n + frames, (Option.some.inj hnext).symm.trans hgraph.symm, hlonger⟩
      · intro k hk
        have hne : k ≠ g.generation := by
          rintro rfl
          exact hk (List.mem_map_of_mem hg)
        rw [hsame k hne]
        exact h.other k hk

/-- What holds of the graphs that have begun and of the one that plays, at any time. -/
def Continues (m : Moment) (past : List Action) : Prop :=
  m.Played past (graphsOf (gather obeyed m past)) (m.after past).session.voice.graph

/-- When a block begins, all graphs that were accepted have begun, the last of them plays or none
does, and nothing has been heard of those that waited. -/
theorem Continues.drain (hready : ∀ g, m.phase ≠ .built g)
    (hempty : m.session.link.commands.toList = []) (h : m.Continues past) :
    m.Played past (gather accepted m past) (m.after past).session.drain.voice.graph := by
  have hsplit := m.obeyed_append_waiting hempty past
  have hincreasing := accepted_increasing hready past
  rw [← hsplit] at hincreasing ⊢
  rw [List.map_append, List.pairwise_append] at hincreasing
  refine Played.append h ?_ ?_
  · intro g hg hold
    exact Nat.lt_irrefl _ (hincreasing.2.2 _ hold _ (List.mem_map_of_mem hg))
  · exact fun g hg => Voice.graph_foldl_obey hg

theorem continues (hready : ∀ g, m.phase ≠ .built g)
    (hempty : m.session.link.commands.toList = []) (hsilent : m.session.voice.graph = none)
    (actions : List Action) : m.Continues actions := by
  refine history_induction (P := fun past _ => m.Continues past) (m := m) ?_ ?_ actions
  · refine ⟨nofun, ?_, fun _ _ => rfl⟩
    intro g hg
    rw [show (m.after []).session.voice.graph = none from hsilent] at hg
    contradiction
  · intro past action h
    rw [Continues, after_concat, gather_concat, graphsOf_append]
    by_cases hblock : ∃ samples, action = .block samples
    · obtain ⟨samples, rfl⟩ := hblock
      have hsplit := m.obeyed_append_waiting hempty past
      rw [obeyed_block, hsplit]
      exact (h.drain hready hempty).block (accepted_increasing hready past) samples
    · have hpassed := (act_effect (m.after past) action).resolve_left hblock
      have hsame : ∀ k, gather (pulled k) m (past ++ [action]) = gather (pulled k) m past := by
        intro k
        rw [gather_concat, pulled_of_not_block hblock, List.append_nil]
      rw [hpassed.obeyed, graphsOf_nil, List.append_nil, hpassed.voice]
      exact Played.of_same h hsame fun _ hlive => hlive

/-! ## Blocks -/

/-- The limiter and the number of channels are those of the settings. -/
theorem setup_after (m : Moment) (actions : List Action) :
    (m.after actions).session.voice.setup = m.session.voice.setup := by
  refine after_induction (P := fun now => now.session.voice.setup = m.session.voice.setup) rfl ?_
    actions
  intro now action h
  rcases act_effect now action with ⟨samples, rfl⟩ | hpassed
  · obtain ⟨-, -, -, hvoice⟩ := now.session.process_effect samples
    rw [session_block, hvoice, Voice.setup_play, ← h]
    exact Voice.setup_foldl_obey _ _ _
  · rw [hpassed.voice, h]

theorem setup_drain (m : Moment) (actions : List Action) :
    (m.after actions).session.drain.voice.setup = m.session.voice.setup := by
  rw [← setup_after m actions]
  exact Voice.setup_foldl_obey _ _ _

/-- The graph that plays in a block has begun by the end of the block. -/
theorem begun_of_live (hready : ∀ g, m.phase ≠ .built g)
    (hempty : m.session.link.commands.toList = []) (hsilent : m.session.voice.graph = none)
    {before rest : List Action} {samples : Nat} {g : Graph}
    (hg : (m.after before).session.drain.voice.graph = some g) :
    g.generation ∈
      (graphsOf (gather obeyed m (before ++ .block samples :: rest))).map Graph.generation := by
  obtain ⟨g₀, hg₀, n, hrest, -⟩ :=
    ((continues hready hempty hsilent before).drain hready hempty).live g hg
  have hgeneration : g.generation = g₀.generation := by
    rw [hrest]
    exact Graph.generation_renderOnto #[] n g₀
  rw [← obeyed_append_waiting m hempty before] at hg₀
  rw [hgeneration, gather_append, gather, graphsOf_append, graphsOf_append, ← List.append_assoc]
  exact List.mem_map_of_mem (List.mem_append_left _ hg₀)

end Moment

end ToneGraph
