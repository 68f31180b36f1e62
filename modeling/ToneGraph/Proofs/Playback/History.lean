import ToneGraph.Proofs.Playback.Agreement
/-!
# Histories

What has happened to a session is read off the actions since it was made: a note is taken of every
action at the moment at which it comes, and the notes are put in a row.

For the two sides of a session only a few steps matter.  Every action but a block leaves the voice
alone and either leaves the commands alone or adds one at the end; a block obeys all commands and
plays.  The lemmas of this module say so once, and later proofs open no step.

## Main definitions

* `Moment.gather`: the notes of all actions, in order.
* `Moment.obeyed`, `Moment.accepted`, `Moment.released`: commands that a block obeys, graphs that
  the queue of commands accepts, and graphs that the control side lets go of.

## Main statements

* `Moment.history_induction`: what one more action keeps holds after all actions.
* `Moment.act_effect`: what every action but a block leaves to the audio side.
* `Moment.obeyed_append_waiting`: the graphs that were accepted are those that were begun and those
  that still wait, in this order.
* `Moment.accepted_increasing`: graphs are accepted in the order of their numbers.
-/

namespace ToneGraph

open Synth

/-- A graph under a number. -/
def Graph.numbered (g : Graph) (k : Nat) : Graph :=
  { g with generation := k }

/-! ## Commands and their graphs -/

/-- The graph that a command brings. -/
def Command.graph? : Command → Option Graph
  | .play g => some g
  | .stop | .setVolume _ => none

/-- The graphs that some commands bring, in order. -/
def graphsOf (commands : List Command) : List Graph :=
  commands.filterMap Command.graph?

@[simp] theorem graphsOf_nil : graphsOf [] = [] := rfl

@[simp] theorem graphsOf_append (us vs : List Command) :
    graphsOf (us ++ vs) = graphsOf us ++ graphsOf vs :=
  List.filterMap_append

theorem mem_graphsOf {commands : List Command} {g : Graph} :
    g ∈ graphsOf commands ↔ .play g ∈ commands := by
  rw [graphsOf, List.mem_filterMap]
  constructor
  · rintro ⟨c, hc, hgraph⟩
    cases c with
    | play g' => cases hgraph; exact hc
    | stop | setVolume => contradiction
  · exact fun h => ⟨_, h, rfl⟩

/-! ## Steps as the two sides see them -/

namespace Session

/-- Nothing has changed that the audio side can see. -/
structure Kept (s t : Session) : Prop where
  commands : t.link.commands = s.link.commands
  retired : t.link.retired = s.link.retired
  voice : t.voice = s.voice

/-- A command has been sent, and nothing else has changed that the audio side can see. -/
structure Sent (c : Command) (s t : Session) : Prop where
  commands : t.link.commands.toList = s.link.commands.toList ++ [c]
  capacity : t.link.commands.capacity = s.link.commands.capacity
  retired : t.link.retired = s.link.retired
  voice : t.voice = s.voice

theorem Kept.refl (s : Session) : s.Kept s := ⟨rfl, rfl, rfl⟩

theorem sent_of_send? {s t : Session} {c : Command} (h : s.send? c = some t) :
    Sent c s t ∧ t.control = s.control := by
  obtain ⟨commands, hpush, rfl⟩ := Option.map_eq_some_iff.1 h
  exact ⟨⟨BoundedQueue.toList_of_push? hpush, BoundedQueue.capacity_of_push? hpush, rfl, rfl⟩, rfl⟩

/-- Asking to stop changes nothing, or sends a stop to what plays. -/
theorem halt_effect (s : Session) :
    s.halt.2 = s ∨
    s.control.state = .playing ∧ Sent .stop s s.halt.2 ∧
      s.halt.2.control = { s.control with state := .idle } := by
  unfold halt
  by_cases hstate : s.control.state = .playing
  · rw [if_pos hstate]
    split
    · next sent hsent =>
        obtain ⟨⟨hcommands, hcapacity, hretired, hvoice⟩, hcontrol⟩ := sent_of_send? hsent
        refine .inr ⟨hstate, ⟨hcommands, hcapacity, hretired, hvoice⟩, ?_⟩
        rw [enter, hcontrol]
    · exact .inl rfl
  · rw [if_neg hstate]
    exact .inl rfl

/-- Building sends nothing.  A graph that is built is the one that the source compiles to, with the
next number. -/
theorem build_effect (s : Session) (source : String) :
    (∃ why t, s.build source = (.error why, t) ∧ Kept s t ∧
      t.control.generation = s.control.generation) ∨
    ∃ g t, compile s.control.settings source = .ok g ∧
      s.build source = (.ok (g.numbered (s.control.generation + 1)), t) ∧ Kept s t ∧
      t.control.generation = s.control.generation + 1 := by
  unfold build
  dsimp only
  split
  · exact .inl ⟨_, _, rfl, ⟨rfl, rfl, rfl⟩, rfl⟩
  · next g hg => exact .inr ⟨g, _, hg, rfl, ⟨rfl, rfl, rfl⟩, rfl⟩

theorem build_of_compile {s : Session} {source : String} {g : Graph}
    (h : compile s.control.settings source = .ok g) :
    s.build source = (.ok (g.numbered (s.control.generation + 1)),
      { s with control := { s.control with
        state := .building
        lastError := none
        generation := s.control.generation + 1 } }) := by
  unfold build
  dsimp only
  rw [show compile (s.enter .building).control.settings source = .ok g from h]
  rfl

/-- Asking to play is refused or sends the graph. -/
theorem launch_effect (s : Session) (g : Graph) :
    (∃ t, s.launch g = (.error .queueFull, t) ∧ Kept s t ∧
      t.control.generation = s.control.generation) ∨
    ∃ t, s.launch g = (.ok (), t) ∧ Sent (.play g) s t ∧
      t.control.generation = s.control.generation := by
  unfold launch
  split
  · next sent hsent =>
      obtain ⟨⟨hcommands, hcapacity, hretired, hvoice⟩, hcontrol⟩ := sent_of_send? hsent
      refine .inr ⟨_, rfl, ⟨hcommands, hcapacity, hretired, hvoice⟩, ?_⟩
      show sent.control.generation = s.control.generation
      rw [hcontrol]
  · exact .inl ⟨_, rfl, ⟨rfl, rfl, rfl⟩, rfl⟩

/-- Setting the volume is refused or sends the volume. -/
theorem setVolume_effect (s : Session) (volume : Float32) :
    Kept s (s.setVolume volume).2 ∨ ∃ x, Sent (.setVolume x) s (s.setVolume volume).2 := by
  unfold setVolume
  dsimp only
  split
  · next sent hsent =>
      obtain ⟨⟨hcommands, hcapacity, hretired, hvoice⟩, -⟩ := sent_of_send? hsent
      exact .inr ⟨_, hcommands, hcapacity, hretired, hvoice⟩
  · exact .inl (.refl s)

/-- Of the record, only the volume is set. -/
theorem control_setVolume (s : Session) (volume : Float32) :
    ∃ x, (s.setVolume volume).2.control = { s.control with volume := x } := by
  unfold setVolume
  dsimp only
  split
  · next sent hsent =>
      obtain ⟨-, hcontrol⟩ := sent_of_send? hsent
      refine ⟨volumeShare volume, ?_⟩
      rw [hcontrol]
  · exact ⟨s.control.volume, rfl⟩

theorem kept_readScope (s : Session) (count : Nat) : Kept s (s.readScope count).2 := by
  unfold readScope
  split
  · exact .refl s
  · exact ⟨rfl, rfl, rfl⟩

theorem control_readScope (s : Session) (count : Nat) :
    (s.readScope count).2.control = s.control := by
  unfold readScope
  split <;> rfl

/-- A block obeys all commands and then plays. -/
theorem process_effect (s : Session) (samples : Nat) :
    let t := (s.process samples).2
    t.control = s.control ∧ t.link.commands = s.drain.link.commands ∧
      t.link.retired = s.drain.link.retired ∧ t.voice = (s.drain.voice.play samples).2 := by
  have hcontrol : s.drain.control = s.control := rfl
  dsimp only
  rw [← hcontrol]
  unfold process
  split
  next control commands retired scope voice hdrain =>
    rw [hdrain]
    split
    · next hnone =>
        obtain ⟨graph, volume, limiter, channels, hpos⟩ := voice
        cases graph with
        | none => exact ⟨rfl, rfl, rfl, rfl⟩
        | some g => contradiction
    · exact ⟨rfl, rfl, rfl, rfl⟩

end Session

/-! ## Notes -/

namespace Moment

variable {α : Type}

theorem after_concat (m : Moment) (past : List Action) (action : Action) :
    m.after (past ++ [action]) = (m.after past).act action := by
  rw [after, List.foldl_append]
  rfl

/-- What holds before any action, and is kept by one more, holds after all actions. -/
theorem history_induction {P : List Action → Moment → Prop} {m : Moment} (hstart : P [] m)
    (hact : ∀ past action, P past (m.after past) → P (past ++ [action]) ((m.after past).act action))
    (actions : List Action) : P actions (m.after actions) := by
  suffices hmore : ∀ rest past, P past (m.after past) →
      P (past ++ rest) (m.after (past ++ rest)) from hmore actions [] hstart
  intro rest
  induction rest with
  | nil =>
      intro past h
      rwa [List.append_nil]
  | cons action rest ih =>
      intro past h
      have hnext := hact past action h
      rw [← after_concat] at hnext
      have hrest := ih (past ++ [action]) hnext
      rwa [List.append_assoc] at hrest

/-- The notes that are taken of some actions, each at the moment at which the action comes. -/
def gather (note : Moment → Action → List α) (m : Moment) : List Action → List α
  | [] => []
  | action :: rest => note m action ++ gather note (m.act action) rest

theorem gather_append (note : Moment → Action → List α) (m : Moment) (past more : List Action) :
    gather note m (past ++ more) = gather note m past ++ gather note (m.after past) more := by
  induction past generalizing m with
  | nil => rfl
  | cons first rest ih =>
      rw [List.cons_append, gather, gather, ih, List.append_assoc]
      rfl

theorem gather_concat (note : Moment → Action → List α) (m : Moment) (past : List Action)
    (action : Action) :
    gather note m (past ++ [action]) = gather note m past ++ note (m.after past) action := by
  rw [gather_append, gather, gather, List.append_nil]

/-- The commands that the voice obeys. -/
def obeyed : Moment → Action → List Command
  | ⟨s, _⟩, .block _ => s.link.commands.toList
  | _, _ => []

/-- The graph that the queue of commands accepts. -/
def accepted : Moment → Action → List Graph
  | ⟨s, .built g⟩, .proceed =>
    match (s.launch g).1 with
    | .ok () => [g]
    | .error _ => []
  | _, _ => []

/-- The graphs that the control side collects and lets go of. -/
def released : Moment → Action → List Graph
  | ⟨s, .ready⟩, .reclaim => s.reclaim.1
  | ⟨s, .ready⟩, .stop => s.reclaim.1
  | ⟨s, .ready⟩, .run _ => s.reclaim.1
  | _, _ => []

section Block

variable (m : Moment) (samples : Nat)

theorem session_block : (m.act (.block samples)).session = (m.session.process samples).2 := rfl

theorem obeyed_block : obeyed m (.block samples) = m.session.link.commands.toList := rfl

theorem accepted_block : accepted m (.block samples) = [] := by
  obtain ⟨s, phase⟩ := m
  cases phase <;> rfl

theorem released_block : released m (.block samples) = [] := by
  obtain ⟨s, phase⟩ := m
  cases phase <;> rfl

theorem commands_block :
    (m.act (.block samples)).session.link.commands.toList = [] := by
  obtain ⟨-, hcommands, -⟩ := m.session.process_effect samples
  rw [session_block, hcommands, Session.commands_drain]

end Block

/-- What an action of the control side, or a read of the scope, leaves to the audio side. -/
structure Passed (m : Moment) (action : Action) : Prop where
  voice : (m.act action).session.voice = m.session.voice
  obeyed : obeyed m action = []
  retired : released m action ++ (m.act action).session.link.retired.toList =
    m.session.link.retired.toList
  graphs : graphsOf (m.act action).session.link.commands.toList =
    graphsOf m.session.link.commands.toList ++ accepted m action

private theorem Passed.of_kept {m : Moment} {action : Action}
    (h : m.session.Kept (m.act action).session) (hobeyed : Moment.obeyed m action = [])
    (hreleased : released m action = []) (haccepted : accepted m action = []) :
    Passed m action := by
  refine ⟨h.voice, hobeyed, ?_, ?_⟩
  · rw [hreleased, h.retired, List.nil_append]
  · rw [haccepted, h.commands, List.append_nil]

private theorem Passed.of_sent {m : Moment} {action : Action} {c : Command}
    (h : m.session.Sent c (m.act action).session) (hobeyed : Moment.obeyed m action = [])
    (hreleased : released m action = []) (haccepted : accepted m action = graphsOf [c]) :
    Passed m action := by
  refine ⟨h.voice, hobeyed, ?_, ?_⟩
  · rw [hreleased, h.retired, List.nil_append]
  · rw [haccepted, h.commands, graphsOf_append]

/-- A run builds its graph and numbers it, or ends.  Nothing is sent. -/
theorem act_silenced (s : Session) (source : String) :
    (∃ t, act ⟨s, .silenced source⟩ .proceed = ⟨t, .ready⟩ ∧ s.Kept t ∧
      t.control.generation = s.control.generation) ∨
    ∃ g t, compile s.control.settings source = .ok g ∧
      act ⟨s, .silenced source⟩ .proceed =
        ⟨t, .built (g.numbered (s.control.generation + 1))⟩ ∧ s.Kept t ∧
      t.control.generation = s.control.generation + 1 := by
  show (∃ t, proceed ⟨s, .silenced source⟩ = _ ∧ _) ∨
    ∃ g t, _ ∧ proceed ⟨s, .silenced source⟩ = _ ∧ _
  rcases s.build_effect source with
    ⟨_, t, hbuild, hkept, hgeneration⟩ | ⟨g, t, hcompile, hbuild, hkept, hgeneration⟩
  · refine .inl ⟨t, ?_, hkept, hgeneration⟩
    rw [proceed, hbuild]
  · refine .inr ⟨g, t, hcompile, ?_, hkept, hgeneration⟩
    rw [proceed, hbuild]

/-- However a run has fared with asking for silence, it has asked. -/
theorem act_replacing (s : Session) (source : String) :
    act ⟨s, .replacing source⟩ .proceed = ⟨s.halt.2, .ready⟩ ∨
    act ⟨s, .replacing source⟩ .proceed = ⟨s.halt.2, .silenced source⟩ := by
  show proceed ⟨s, .replacing source⟩ = _ ∨ proceed ⟨s, .replacing source⟩ = _
  rw [proceed]
  cases s.halt with
  | mk result t =>
      cases result with
      | error why => exact .inl rfl
      | ok => exact .inr rfl

private theorem passed_halt {m : Moment} (hsession : (m.act .proceed).session = m.session.halt.2)
    (haccepted : accepted m .proceed = []) (hreleased : released m .proceed = [])
    (hobeyed : Moment.obeyed m .proceed = []) : Passed m .proceed := by
  rcases m.session.halt_effect with hsame | ⟨-, hsent, -⟩
  · refine .of_kept ?_ hobeyed hreleased haccepted
    rw [hsession, hsame]
    exact .refl m.session
  · refine .of_sent (c := .stop) ?_ hobeyed hreleased haccepted
    rw [hsession]
    exact hsent

private theorem passed_proceed (m : Moment) : Passed m .proceed := by
  obtain ⟨s, phase⟩ := m
  cases phase with
  | ready => exact .of_kept (.refl s) rfl rfl rfl
  | stopping => exact passed_halt rfl rfl rfl rfl
  | replacing source =>
      refine passed_halt ?_ rfl rfl rfl
      rcases act_replacing s source with hact | hact
      · rw [hact]
      · rw [hact]
  | silenced source =>
      refine .of_kept ?_ rfl rfl rfl
      rcases act_silenced s source with ⟨t, hact, hkept, -⟩ | ⟨g, t, -, hact, hkept, -⟩
      · rw [hact]
        exact hkept
      · rw [hact]
        exact hkept
  | built g =>
      rcases s.launch_effect g with ⟨t, hlaunch, hkept, -⟩ | ⟨t, hlaunch, hsent, -⟩
      · refine .of_kept ?_ rfl rfl ?_
        · show s.Kept (s.launch g).2
          rw [hlaunch]
          exact hkept
        · rw [accepted, hlaunch]
      · refine .of_sent (c := .play g) ?_ rfl rfl ?_
        · show s.Sent (.play g) (s.launch g).2
          rw [hlaunch]
          exact hsent
        · rw [accepted, hlaunch]
          rfl

/-- Every action but a block leaves the voice alone, and the graphs that wait are those that waited
and the one that is accepted. -/
theorem act_effect (m : Moment) (action : Action) :
    (∃ samples, action = .block samples) ∨ Passed m action := by
  obtain ⟨s, phase⟩ := m
  cases action with
  | block samples => exact .inl ⟨samples, rfl⟩
  | readScope count =>
      right
      cases phase <;> exact .of_kept (s.kept_readScope count) rfl rfl rfl
  | proceed => exact .inr (passed_proceed _)
  | setVolume volume =>
      right
      cases phase with
      | ready =>
          rcases s.setVolume_effect volume with h | ⟨x, h⟩
          · exact .of_kept h rfl rfl rfl
          · exact .of_sent h rfl rfl rfl
      | _ => exact .of_kept (.refl s) rfl rfl rfl
  | takeScope | setSeed =>
      right
      cases phase <;> exact .of_kept ⟨rfl, rfl, rfl⟩ rfl rfl rfl
  | reclaim | stop | run =>
      right
      cases phase with
      | ready => exact ⟨rfl, rfl, List.append_nil _, (List.append_nil _).symm⟩
      | _ => exact .of_kept (.refl s) rfl rfl rfl

/-- The graphs that were accepted are those that the voice was told to play and those that still
wait, in this order. -/
theorem obeyed_append_waiting (m : Moment) (hnone : m.session.link.commands.toList = [])
    (actions : List Action) :
    graphsOf (gather obeyed m actions) ++
        graphsOf (m.after actions).session.link.commands.toList = gather accepted m actions := by
  refine history_induction (P := fun past now =>
    graphsOf (gather obeyed m past) ++ graphsOf now.session.link.commands.toList =
      gather accepted m past) ?_ ?_ actions
  · rw [hnone]
    rfl
  · intro past action ih
    rw [gather_concat, gather_concat, graphsOf_append]
    rcases act_effect (m.after past) action with ⟨samples, rfl⟩ | h
    · rw [obeyed_block, accepted_block, commands_block, graphsOf_nil, List.append_nil,
        List.append_nil, ih]
    · rw [h.obeyed, h.graphs, graphsOf_nil, List.append_nil, ← List.append_assoc, ih]

/-! ## Numbers -/

/-- An action numbers a graph that it builds, or it numbers nothing and accepts a graph only if the
graph was built before. -/
inductive Numbers (m : Moment) (action : Action) : Prop
  | built (source : String) (g : Graph) : m.phase = .silenced source →
      compile m.session.control.settings source = .ok g →
      (m.act action).phase = .built (g.numbered (m.session.control.generation + 1)) →
      accepted m action = [] →
      (m.act action).session.control.generation = m.session.control.generation + 1 →
      Numbers m action
  | none : (∀ g, (m.act action).phase = .built g → m.phase = .built g) →
      (accepted m action = [] ∨
        ∃ g, m.phase = .built g ∧ accepted m action = [g] ∧ (m.act action).phase = .ready) →
      (m.act action).session.control.generation = m.session.control.generation →
      Numbers m action

private theorem numbers_proceed (m : Moment) : Numbers m .proceed := by
  obtain ⟨s, phase⟩ := m
  have hhalt : s.halt.2.control.generation = s.control.generation := by
    rcases s.halt_effect with hsame | ⟨-, -, hcontrol⟩
    · rw [hsame]
    · rw [hcontrol]
  cases phase with
  | ready => exact .none (fun g h => h) (.inl rfl) rfl
  | stopping => exact .none nofun (.inl rfl) hhalt
  | replacing source =>
      rcases act_replacing s source with hact | hact
      · refine .none ?_ (.inl rfl) ?_
        · rw [hact]
          nofun
        · rw [hact]
          exact hhalt
      · refine .none ?_ (.inl rfl) ?_
        · rw [hact]
          nofun
        · rw [hact]
          exact hhalt
  | silenced source =>
      rcases act_silenced s source with
        ⟨t, hact, -, hgeneration⟩ | ⟨g, t, hcompile, hact, -, hgeneration⟩
      · refine .none ?_ (.inl rfl) ?_
        · rw [hact]
          nofun
        · rw [hact]
          exact hgeneration
      · refine .built source g rfl hcompile ?_ rfl ?_
        · rw [hact]
        · rw [hact]
          exact hgeneration
  | built g =>
      rcases s.launch_effect g with ⟨t, hlaunch, -, hgeneration⟩ | ⟨t, hlaunch, -, hgeneration⟩
      · refine .none nofun (.inl ?_) ?_
        · rw [accepted, hlaunch]
        · show (s.launch g).2.control.generation = _
          rw [hlaunch]
          exact hgeneration
      · refine .none nofun (.inr ⟨g, rfl, ?_, rfl⟩) ?_
        · rw [accepted, hlaunch]
        · show (s.launch g).2.control.generation = _
          rw [hlaunch]
          exact hgeneration

theorem act_numbers (m : Moment) (action : Action) : Numbers m action := by
  obtain ⟨s, phase⟩ := m
  cases action with
  | proceed => exact numbers_proceed _
  | block samples =>
      refine .none (fun g h => h) (.inl (accepted_block _ _)) ?_
      obtain ⟨hcontrol, -⟩ := s.process_effect samples
      exact congrArg Control.generation hcontrol
  | readScope count =>
      refine .none (fun g h => h) (.inl (by cases phase <;> rfl)) ?_
      exact congrArg Control.generation (s.control_readScope count)
  | setVolume volume =>
      refine .none ?_ (.inl (by cases phase <;> rfl)) ?_
      · cases phase <;> exact fun g h => h
      · cases phase with
        | ready =>
            obtain ⟨x, hcontrol⟩ := s.control_setVolume volume
            show (s.setVolume volume).2.control.generation = s.control.generation
            rw [hcontrol]
        | _ => rfl
  | takeScope | setSeed | reclaim =>
      refine .none ?_ (.inl (by cases phase <;> rfl)) ?_
      · cases phase <;> exact fun g h => h
      · cases phase <;> rfl
  | stop | run =>
      refine .none ?_ (.inl (by cases phase <;> rfl)) ?_
      · cases phase with
        | ready => nofun
        | _ => exact fun g h => h
      · cases phase <;> rfl

/-- Graphs that were accepted bear rising numbers, none above the last number given, and a graph
that is built bears a number above them all. -/
structure Numbered (graphs : List Graph) (m : Moment) : Prop where
  increasing : (graphs.map Graph.generation).Pairwise (· < ·)
  bound : ∀ g ∈ graphs, g.generation ≤ m.session.control.generation
  built : ∀ g, m.phase = .built g → g.generation = m.session.control.generation ∧
    ∀ earlier ∈ graphs, earlier.generation < g.generation

theorem Numbered.act {graphs : List Graph} {m : Moment} (h : Numbered graphs m) (action : Action) :
    Numbered (graphs ++ accepted m action) (m.act action) := by
  rcases act_numbers m action with
    ⟨source, g, -, -, hphase, hnone, hgeneration⟩ | ⟨hphase, haccepted, hgeneration⟩
  · rw [hnone, List.append_nil]
    refine ⟨h.increasing, ?_, ?_⟩
    · intro earlier hearlier
      have hle := h.bound earlier hearlier
      omega
    · intro g' hg'
      obtain rfl := Phase.built.inj (hphase.symm.trans hg')
      refine ⟨hgeneration.symm, ?_⟩
      intro earlier hearlier
      exact Nat.lt_succ_of_le (h.bound earlier hearlier)
  · rcases haccepted with hnone | ⟨g, hbuilt, haccepted, hready⟩
    · rw [hnone, List.append_nil]
      refine ⟨h.increasing, ?_, ?_⟩
      · rw [hgeneration]
        exact h.bound
      · intro g hg
        rw [hgeneration]
        exact h.built g (hphase g hg)
    · obtain ⟨hnumber, hbelow⟩ := h.built g hbuilt
      rw [haccepted]
      refine ⟨?_, ?_, ?_⟩
      · rw [List.map_append, List.pairwise_append]
        refine ⟨h.increasing, List.pairwise_singleton _ _, ?_⟩
        intro a ha b hb
        obtain ⟨earlier, hearlier, rfl⟩ := List.mem_map.1 ha
        obtain rfl : b = g.generation := List.mem_singleton.1 hb
        exact hbelow earlier hearlier
      · intro g' hg'
        rw [hgeneration]
        rcases List.mem_append.1 hg' with hearlier | hlast
        · exact h.bound g' hearlier
        · obtain rfl : g' = g := List.mem_singleton.1 hlast
          exact Nat.le_of_eq hnumber
      · intro g' hg'
        rw [hready] at hg'
        contradiction

/-- Graphs are accepted in the order of their numbers. -/
theorem accepted_increasing {m : Moment} (hready : ∀ g, m.phase ≠ .built g)
    (actions : List Action) :
    ((gather accepted m actions).map Graph.generation).Pairwise (· < ·) := by
  have hnumbered : Numbered (gather accepted m actions) (m.after actions) := by
    refine history_induction (P := fun past now => Numbered (gather accepted m past) now) ?_ ?_
      actions
    · exact ⟨.nil, nofun, fun g hg => absurd hg (hready g)⟩
    · intro past action h
      rw [gather_concat]
      exact h.act action
  exact hnumbered.increasing

end Moment

end ToneGraph
