import ToneGraph.Proofs.Expr.Height
import ToneGraph.Proofs.Graph.Lowering
import ToneGraph.Proofs.Playback.History
/-!
# Custody of graphs

A graph that was accepted is somewhere until the control side lets go of it: among the commands that
wait, in the voice, or in the queue from which the control side collects.  The audio side hands a
graph over only when a command stops it, so it matters that there is room in that queue for every
stop that waits.

The queue of commands is orderly: a graph comes only where none plays, a stop only where one does.
An orderly queue that ends with a graph playing has a graph for every stop, so it holds at least
twice as many commands as stops, and one more stop fits into a queue of the same capacity, two at
least, once it has been emptied.  A request empties it before it sends a stop, and whatever blocks
fall between, the graphs they hand over are those of stops that were counted.

## Main definitions

* `Heard.Orderly`: commands that come where they may.
* `Session.Roomy`: room for what the stops that wait hand over, and some more.
* `Moment.owed`: the stop that a request has made room for and has not sent yet.

## Main statements

* `Voice.obey_all`: obeying orderly commands loses no graph.
* `Moment.Roomy.act`: every action keeps the invariant.
* `Moment.every_graph_in_one_place`: after any actions every accepted graph is in one place, and
  whatever the voice still hands over finds room.
-/

namespace ToneGraph

/-! ## Orderly commands -/

/-- Whether a command may come: a graph where none plays, a stop where one does. -/
def Heard.Admits (h : Heard) : Command → Prop
  | .play _ => h.generation? = none
  | .stop => h.generation? ≠ none
  | .setVolume _ => True

/-- Commands each of which may come after those before it. -/
def Heard.Orderly : Heard → List Command → Prop
  | _, [] => True
  | h, c :: rest => h.Admits c ∧ (h.obey c).Orderly rest

/-- Whether a command hands a graph over. -/
def Command.isStop : Command → Bool
  | .stop => true
  | .play _ | .setVolume _ => false

/-- How many of some commands hand a graph over. -/
def stops (commands : List Command) : Nat :=
  commands.countP Command.isStop

theorem stops_append (us vs : List Command) : stops (us ++ vs) = stops us + stops vs :=
  List.countP_append

theorem stops_cons (c : Command) (rest : List Command) :
    stops (c :: rest) = stops [c] + stops rest :=
  stops_append [c] rest

namespace Heard

theorem orderly_append {h : Heard} {us vs : List Command} :
    h.Orderly (us ++ vs) ↔ h.Orderly us ∧ (us.foldl obey h).Orderly vs := by
  induction us generalizing h with
  | nil => exact ⟨fun hvs => ⟨trivial, hvs⟩, fun hvs => hvs.2⟩
  | cons c rest ih =>
      rw [List.cons_append, Orderly, Orderly, ih, List.foldl_cons, and_assoc]

/-- One graph, if one plays. -/
def plays (h : Heard) : Nat :=
  h.generation?.toList.length

/-- Along orderly commands, graphs that come are graphs that are stopped and the one that plays. -/
theorem Orderly.balance {h : Heard} {commands : List Command} (horderly : h.Orderly commands) :
    h.plays + (graphsOf commands).length = stops commands + (commands.foldl obey h).plays := by
  induction commands generalizing h with
  | nil => exact Nat.add_comm _ _
  | cons c rest ih =>
      obtain ⟨hadmits, hrest⟩ := horderly
      have hlater := ih hrest
      rw [stops_cons, List.foldl_cons]
      cases c with
      | play g =>
          have hnone : h.plays = 0 := congrArg (fun o => o.toList.length) hadmits
          have hplays : (h.obey (.play g)).plays = 1 := rfl
          have hstops : stops [.play g] = 0 := rfl
          have hgraphs : (graphsOf (.play g :: rest)).length = (graphsOf rest).length + 1 := rfl
          omega
      | stop =>
          have hsome : h.plays = 1 := by
            obtain ⟨generation, hgeneration⟩ := Option.ne_none_iff_exists'.1 hadmits
            exact congrArg (fun o => o.toList.length) hgeneration
          have hplays : (h.obey .stop).plays = 0 := rfl
          have hstops : stops [.stop] = 1 := rfl
          have hgraphs : (graphsOf (.stop :: rest)).length = (graphsOf rest).length := rfl
          omega
      | setVolume x =>
          have hplays : (h.obey (.setVolume x)).plays = h.plays := rfl
          have hstops : stops [.setVolume x] = 0 := rfl
          have hgraphs : (graphsOf (.setVolume x :: rest)).length = (graphsOf rest).length := rfl
          omega

end Heard

theorem stops_add_graphs_le (commands : List Command) :
    stops commands + (graphsOf commands).length ≤ commands.length := by
  induction commands with
  | nil => exact Nat.le_refl 0
  | cons c rest ih =>
      have hone : stops [c] + (graphsOf [c]).length ≤ 1 := by
        cases c with
        | play | stop => exact Nat.le_refl 1
        | setVolume x => exact Nat.zero_le 1
      have hgraphs : (graphsOf (c :: rest)).length =
          (graphsOf [c]).length + (graphsOf rest).length := by
        rw [← List.length_append, ← graphsOf_append]
        rfl
      rw [stops_cons, List.length_cons, hgraphs]
      omega

/-- A stop more than those that wait is no more than the commands that can wait, if what was sent
last was to play. -/
theorem Heard.Orderly.stops_lt {h : Heard} {commands : List Command} {capacity : Nat}
    (horderly : h.Orderly commands) (hplaying : (commands.foldl obey h).generation? ≠ none)
    (hlength : commands.length ≤ capacity) (htwo : 2 ≤ capacity) :
    stops commands + 1 ≤ capacity := by
  -- Since a graph plays in the end, each stop has a graph behind it: twice the stops fit.
  have hbalance := horderly.balance
  have hbound := stops_add_graphs_le commands
  have hstart : h.plays ≤ 1 := by
    rw [plays]
    cases h.generation? with
    | none => exact Nat.zero_le 1
    | some generation => exact Nat.le_refl 1
  have hend : (commands.foldl obey h).plays = 1 := by
    obtain ⟨generation, hgeneration⟩ := Option.ne_none_iff_exists'.1 hplaying
    exact congrArg (fun o => o.toList.length) hgeneration
  omega

/-! ## Obeying -/

namespace Voice

/-- A command that may come, with room for what it hands over, loses no graph. -/
theorem obey_one {v : Voice} {retired : BoundedQueue Graph} {c : Command}
    (hadmits : v.heard.Admits c)
    (hroom : retired.toList.length + stops [c] ≤ retired.capacity) :
    let next := obey (v, retired) c
    next.2.toList ++ next.1.graph.toList = retired.toList ++ v.graph.toList ++ graphsOf [c] ∧
      next.2.toList.length = retired.toList.length + stops [c] ∧
      next.2.capacity = retired.capacity := by
  cases c with
  | play g =>
      have hnone : v.graph = none := Option.map_eq_none_iff.1 hadmits
      dsimp only [obey]
      rw [retire_of_none hnone, hnone]
      refine ⟨?_, rfl, rfl⟩
      rw [Option.toList_none, List.append_nil]
      rfl
  | stop =>
      have hsome : v.graph ≠ none := fun hnone => hadmits (Option.map_eq_none_iff.2 hnone)
      obtain ⟨g, hg⟩ := Option.ne_none_iff_exists'.1 hsome
      have hlt : retired.toList.length < retired.capacity := hroom
      have hoffer : (retired.offer g).toList = retired.toList ++ [g] := by
        rw [BoundedQueue.toList_offer, if_pos hlt]
      have hnext : obey (v, retired) .stop = ({ v with graph := none }, retired.offer g) := by
        rw [obey, retire, hg]
      rw [hnext, hg]
      refine ⟨?_, ?_, BoundedQueue.capacity_offer _ _⟩
      · exact congrArg (· ++ []) hoffer
      · rw [hoffer, List.length_append]
        rfl
  | setVolume x => exact ⟨(List.append_nil _).symm, rfl, rfl⟩

/-- Obeying orderly commands, with room for all that they hand over, loses no graph: those handed
over and the one that plays are, in order, those that were, and those that came. -/
theorem obey_all {commands : List Command} {v : Voice} {retired : BoundedQueue Graph}
    (horderly : v.heard.Orderly commands)
    (hroom : retired.toList.length + stops commands ≤ retired.capacity) :
    let last := commands.foldl obey (v, retired)
    last.2.toList ++ last.1.graph.toList =
        retired.toList ++ v.graph.toList ++ graphsOf commands ∧
      last.2.toList.length = retired.toList.length + stops commands ∧
      last.2.capacity = retired.capacity := by
  induction commands generalizing v retired with
  | nil => exact ⟨(List.append_nil _).symm, rfl, rfl⟩
  | cons c rest ih =>
      obtain ⟨hadmits, hrest⟩ := horderly
      rw [stops_cons] at hroom
      have hfirst : retired.toList.length + stops [c] ≤ retired.capacity := by omega
      obtain ⟨hcustody, hlength, hcapacity⟩ := obey_one hadmits hfirst
      rw [← heard_obey v retired c] at hrest
      have hroom' : (obey (v, retired) c).2.toList.length + stops rest ≤
          (obey (v, retired) c).2.capacity := by
        omega
      obtain ⟨hcustody', hlength', hcapacity'⟩ := ih hrest hroom'
      rw [List.foldl_cons]
      refine ⟨?_, ?_, hcapacity'.trans hcapacity⟩
      · rw [show graphsOf (c :: rest) = graphsOf [c] ++ graphsOf rest from graphsOf_append [c] rest,
          ← List.append_assoc, ← hcustody]
        exact hcustody'
      · rw [stops_cons, ← Nat.add_assoc, ← hlength]
        exact hlength'

end Voice

/-! ## What is held -/

/-- The numbers of the graphs that are held, the oldest first: those that no longer play, the one
that plays, and those that wait. -/
def held (voice : Voice) (retired : BoundedQueue Graph) (commands : List Command) : List Nat :=
  retired.toList.map Graph.generation ++ voice.generation?.toList ++
    (graphsOf commands).map Graph.generation

/-- Obeying the first of some commands, with room for all that they hand over, neither loses nor
duplicates a graph. -/
theorem held_obey {first rest : List Command} {v : Voice} {retired : BoundedQueue Graph}
    (horderly : v.heard.Orderly (first ++ rest))
    (hroom : retired.toList.length + stops (first ++ rest) ≤ retired.capacity) :
    let last := first.foldl Voice.obey (v, retired)
    held last.1 last.2 rest = held v retired (first ++ rest) := by
  intro last
  rw [stops_append] at hroom
  have hfirst : retired.toList.length + stops first ≤ retired.capacity := by omega
  obtain ⟨hcustody, -⟩ := Voice.obey_all (Heard.orderly_append.1 horderly).1 hfirst
  have hnumbers := congrArg (List.map Graph.generation) hcustody
  have hlive : ∀ voice : Voice, voice.graph.toList.map Graph.generation =
      voice.generation?.toList := by
    intro voice
    rw [Voice.generation?]
    cases voice.graph <;> rfl
  rw [List.map_append, List.map_append, List.map_append, hlive, hlive] at hnumbers
  rw [held, held, graphsOf_append, List.map_append, ← List.append_assoc, ← hnumbers]

/-- When a command stops the graph that plays, there is room for it. -/
theorem room_obey {first rest : List Command} {c : Command} {v : Voice}
    {retired : BoundedQueue Graph} {g : Graph} (horderly : v.heard.Orderly (first ++ c :: rest))
    (hroom : retired.toList.length + stops (first ++ c :: rest) ≤ retired.capacity)
    (hc : ∀ x, c ≠ .setVolume x) :
    let last := first.foldl Voice.obey (v, retired)
    last.1.graph = some g → (last.2.push? g).isSome := by
  intro last hg
  obtain ⟨hfirst, hnext⟩ := Heard.orderly_append.1 horderly
  rw [← Voice.heard_foldl_obey first v retired] at hnext
  have hadmits : last.1.heard.Admits c := hnext.1
  rw [stops_append, stops_cons] at hroom
  have hroom' : retired.toList.length + stops first ≤ retired.capacity := by omega
  obtain ⟨-, hlength, hcapacity⟩ := Voice.obey_all hfirst hroom'
  cases c with
  | play g' =>
      have hnone : last.1.graph = none := Option.map_eq_none_iff.1 hadmits
      rw [hnone] at hg
      contradiction
  | stop =>
      have hone : stops [.stop] = 1 := rfl
      have hlength : last.2.toList.length = retired.toList.length + stops first := hlength
      have hcapacity : last.2.capacity = retired.capacity := hcapacity
      rw [Option.isSome_iff_ne_none, Ne, BoundedQueue.push?_eq_none_iff]
      omega
  | setVolume x => exact absurd rfl (hc x)

/-! ## Room -/

namespace Session

/-- Orderly commands, and room for all graphs that they hand over and some more. -/
structure Roomy (s : Session) (more : Nat) : Prop where
  capacity : s.link.retired.capacity = s.link.commands.capacity
  two : 2 ≤ s.link.commands.capacity
  orderly : s.voice.heard.Orderly s.link.commands.toList
  room : s.link.retired.toList.length + stops s.link.commands.toList + more ≤
    s.link.retired.capacity

variable {s t : Session} {more less : Nat}

theorem Roomy.waiting (h : s.Roomy more) :
    s.link.retired.toList.length + stops s.link.commands.toList ≤ s.link.retired.capacity := by
  have hroom := h.room
  omega

theorem Roomy.weaken (h : s.Roomy more) (hle : less ≤ more) : s.Roomy less :=
  ⟨h.capacity, h.two, h.orderly, Nat.le_trans (Nat.add_le_add_left hle _) h.room⟩

theorem Roomy.kept (h : s.Roomy more) (hkept : Kept s t) : t.Roomy more := by
  obtain ⟨hcapacity, htwo, horderly, hroom⟩ := h
  obtain ⟨hcommands, hretired, hvoice⟩ := hkept
  rw [← hcommands, ← hretired] at hcapacity hroom
  rw [← hcommands] at htwo horderly
  rw [← hvoice] at horderly
  exact ⟨hcapacity, htwo, horderly, hroom⟩

/-- A command that may come uses up the room for what it hands over. -/
theorem Roomy.sent {c : Command} (h : s.Roomy more) (hsent : Sent c s t)
    (hadmits : s.heard.Admits c) (hle : stops [c] + less ≤ more) : t.Roomy less := by
  obtain ⟨hcapacity, htwo, horderly, hroom⟩ := h
  obtain ⟨hcommands, hcapacity', hretired, hvoice⟩ := hsent
  refine ⟨?_, ?_, ?_, ?_⟩
  · rw [hretired, hcapacity', hcapacity]
  · rw [hcapacity']
    exact htwo
  · rw [hcommands, hvoice, Heard.orderly_append, ← heard_eq]
    exact ⟨horderly, hadmits, trivial⟩
  · rw [hretired, hcommands, stops_append]
    omega

/-- Once all has been collected, there is room for what waits, and for one stop more if a graph will
play. -/
theorem Roomy.reclaim (h : s.Roomy more) (hle : less ≤ 1)
    (hplaying : less = 1 → s.heard.generation? ≠ none) : s.reclaim.2.Roomy less := by
  obtain ⟨hcapacity, htwo, horderly, hroom⟩ := h
  refine ⟨hcapacity, htwo, horderly, ?_⟩
  have hstops : stops s.link.commands.toList + less ≤ s.link.retired.capacity := by
    rcases Nat.le_one_iff_eq_zero_or_eq_one.1 hle with hzero | hone
    · omega
    · have hlast := hplaying hone
      rw [heard_eq] at hlast
      have hlt := horderly.stops_lt hlast s.link.commands.length_toList_le htwo
      omega
  have hempty : s.reclaim.2.link.retired.toList.length = 0 := rfl
  rw [hempty, Nat.zero_add]
  exact hstops

/-- A block uses up no room: what it hands over was counted. -/
theorem Roomy.process (h : s.Roomy more) (samples : Nat) :
    (s.process samples).2.Roomy more := by
  obtain ⟨-, hcommands, hretired, -⟩ := s.process_effect samples
  obtain ⟨-, hlength, hcapacity'⟩ := Voice.obey_all h.orderly h.waiting
  obtain ⟨hcapacity, htwo, horderly, hroom⟩ := h
  have hempty : (s.process samples).2.link.commands.toList = [] := by
    rw [hcommands, commands_drain]
  refine ⟨?_, ?_, ?_, ?_⟩
  · rw [hretired, hcommands]
    exact hcapacity'.trans hcapacity
  · rw [hcommands]
    exact htwo
  · rw [hempty]
    trivial
  · rw [hretired, hempty]
    show s.drain.link.retired.toList.length + 0 + more ≤ s.drain.link.retired.capacity
    have hlength : s.drain.link.retired.toList.length = _ := hlength
    have hcapacity' : s.drain.link.retired.capacity = _ := hcapacity'
    omega

end Session

namespace Moment

/-- One stop, while a request has collected and has yet to ask a graph to stop. -/
def owed (m : Moment) : Nat :=
  match m.phase with
  | .stopping | .replacing _ => if m.session.control.state = .playing then 1 else 0
  | .ready | .silenced _ | .built _ => 0

/-- The invariant: the record agrees with what will be heard, and there is room for the stops that
wait and for the one that is owed. -/
structure Roomy (m : Moment) : Prop where
  agrees : m.Agrees
  room : m.session.Roomy m.owed

theorem owed_congr {s t : Session} {phase : Phase} (h : t.control.state = s.control.state) :
    owed ⟨t, phase⟩ = owed ⟨s, phase⟩ := by
  unfold owed
  rw [h]

/-- A request that asks for silence sends the stop that is owed, or no stop. -/
theorem roomy_halt {s : Session} {phase : Phase} (hphase : s.Silent ∨ s.Sounds)
    (howed : owed ⟨s, phase⟩ = if s.control.state = .playing then 1 else 0)
    (hroom : s.Roomy (owed ⟨s, phase⟩)) : s.halt.2.Roomy 0 := by
  rcases s.halt_effect with hsame | ⟨hstate, hsent, -⟩
  · rw [hsame]
    exact hroom.weaken (Nat.zero_le _)
  · have hone : owed ⟨s, phase⟩ = 1 := by rw [howed, if_pos hstate]
    refine hroom.sent hsent ?_ (Nat.le_of_eq hone.symm)
    rcases hphase with hs | hs
    · exact absurd (hs.state.symm.trans hstate) (by decide)
    · show s.heard.generation? ≠ none
      rw [hs.heard]
      nofun

private theorem Roomy.proceed {m : Moment} (h : m.Roomy) :
    (m.act .proceed).session.Roomy (m.act .proceed).owed := by
  obtain ⟨s, phase⟩ := m
  obtain ⟨⟨-, hphase⟩, hroom⟩ := h
  cases phase with
  | ready => exact hroom
  | stopping => exact roomy_halt hphase rfl hroom
  | replacing source =>
      rcases act_replacing s source with hact | hact
      · rw [hact]
        exact roomy_halt hphase rfl hroom
      · rw [hact]
        exact roomy_halt hphase rfl hroom
  | silenced source =>
      rcases act_silenced s source with ⟨t, hact, hkept, -⟩ | ⟨g, t, -, hact, hkept, -⟩
      · rw [hact]
        exact hroom.kept hkept
      · rw [hact]
        exact hroom.kept hkept
  | built g =>
      show (s.launch g).2.Roomy 0
      rcases s.launch_effect g with ⟨t, hlaunch, hkept, -⟩ | ⟨t, hlaunch, hsent, -⟩
      · rw [hlaunch]
        exact hroom.kept hkept
      · rw [hlaunch]
        exact hroom.sent hsent hphase.1 (Nat.le_refl 0)

/-- A request that begins collects, and then there is room for the stop that it owes. -/
private theorem roomy_begin {s : Session} {phase : Phase} {more : Nat}
    (hphase : s.Silent ∨ s.Sounds) (hroom : s.Roomy more)
    (howed : owed ⟨s.reclaim.2, phase⟩ = if s.control.state = .playing then 1 else 0) :
    s.reclaim.2.Roomy (owed ⟨s.reclaim.2, phase⟩) := by
  rcases hphase with hs | hs
  · have hzero : owed ⟨s.reclaim.2, phase⟩ = 0 := by
      rw [howed, hs.state]
      rfl
    rw [hzero]
    exact hroom.reclaim (Nat.zero_le 1) nofun
  · have hone : owed ⟨s.reclaim.2, phase⟩ = 1 := by
      rw [howed, if_pos hs.state]
    rw [hone]
    refine hroom.reclaim (Nat.le_refl 1) (fun _ => ?_)
    rw [hs.heard]
    nofun

/-- Every action keeps the invariant. -/
theorem Roomy.act {m : Moment} (h : m.Roomy) (action : Action) : (m.act action).Roomy := by
  refine ⟨h.agrees.act action, ?_⟩
  obtain ⟨s, phase⟩ := m
  have hproceed := h.proceed
  obtain ⟨⟨-, hphase⟩, hroom⟩ := h
  cases action with
  | block samples =>
      obtain ⟨hcontrol, -⟩ := s.process_effect samples
      show (s.process samples).2.Roomy (owed ⟨(s.process samples).2, phase⟩)
      rw [owed_congr (congrArg Control.state hcontrol)]
      exact hroom.process samples
  | readScope count =>
      show (s.readScope count).2.Roomy (owed ⟨(s.readScope count).2, phase⟩)
      rw [owed_congr (congrArg Control.state (s.control_readScope count))]
      exact hroom.kept (s.kept_readScope count)
  | proceed => exact hproceed
  | setVolume volume =>
      cases phase with
      | ready =>
          rcases s.setVolume_effect volume with hkept | ⟨x, hsent⟩
          · exact hroom.kept hkept
          · exact hroom.sent hsent trivial (Nat.le_refl 0)
      | _ => exact hroom
  | takeScope | setSeed =>
      cases phase with
      | ready => exact hroom.kept ⟨rfl, rfl, rfl⟩
      | _ => exact hroom
  | reclaim =>
      cases phase with
      | ready => exact hroom.reclaim (Nat.zero_le 1) nofun
      | _ => exact hroom
  | stop | run =>
      cases phase with
      | ready => exact roomy_begin hphase hroom rfl
      | _ => exact hroom

theorem roomy_start (sampleRate : UInt32) (channels : Nat) (settings : Settings) :
    (start sampleRate channels settings).Roomy := by
  refine ⟨agrees_start sampleRate channels settings, rfl, ?_, trivial, Nat.zero_le _⟩
  exact Nat.le_max_right _ 2

/-! ## Custody -/

/-- An action moves graphs on, lets go of some of those held the longest, and accepts one. -/
theorem released_append_held {m : Moment} (h : m.Roomy) (action : Action) :
    let s := m.session
    let t := (m.act action).session
    (released m action).map Graph.generation ++ held t.voice t.link.retired t.link.commands.toList =
      held s.voice s.link.retired s.link.commands.toList ++
        (accepted m action).map Graph.generation := by
  dsimp only
  rcases act_effect m action with ⟨samples, rfl⟩ | hpassed
  · -- A block obeys all commands, then changes nothing but the content of the graph that plays.
    have horderly := h.room.orderly
    have hwaiting := h.room.waiting
    obtain ⟨-, hcommands, hretired, hvoice⟩ := m.session.process_effect samples
    rw [released_block, accepted_block, List.map_nil, List.nil_append, List.append_nil,
      commands_block, session_block, hretired, hvoice]
    have hall : m.session.link.commands.toList ++ [] = m.session.link.commands.toList :=
      List.append_nil _
    rw [← hall] at horderly hwaiting
    have hobey := held_obey horderly hwaiting
    rw [hall] at hobey
    have hplay : (m.session.drain.voice.play samples).2.generation? =
        m.session.drain.voice.generation? :=
      congrArg Heard.generation? (Voice.heard_play _ samples)
    rw [held, hplay]
    exact hobey
  · have hretired := congrArg (List.map Graph.generation) hpassed.retired
    rw [List.map_append] at hretired
    rw [held, held, hpassed.voice, hpassed.graphs, ← hretired, List.map_append]
    simp only [List.append_assoc]

/-- After any actions, and after each command that a block would then obey, the graphs that the
control side has let go of, those that wait to be collected, the one that plays and those that still
wait to be played are in this order the graphs that were accepted, each with a number of its own.
If a graph plays when the next command hands it over, there is room for it. -/
theorem every_graph_in_one_place (sampleRate : UInt32) (channels : Nat) (settings : Settings)
    (actions : List Action) :
    let m := start sampleRate channels settings
    let s := (m.after actions).session
    let numbers := (gather accepted m actions).map Graph.generation
    numbers.Pairwise (· < ·) ∧
      ∀ first rest, s.link.commands.toList = first ++ rest →
        let last := first.foldl Voice.obey (s.voice, s.link.retired)
        (gather released m actions).map Graph.generation ++ held last.1 last.2 rest = numbers ∧
          ∀ c more g, rest = c :: more → (∀ x, c ≠ .setVolume x) → last.1.graph = some g →
            (last.2.push? g).isSome := by
  intro m s numbers
  refine ⟨accepted_increasing (fun g hg => Phase.noConfusion hg) actions, ?_⟩
  obtain ⟨hroomy, hheld⟩ : (m.after actions).Roomy ∧
      (gather released m actions).map Graph.generation ++
        held s.voice s.link.retired s.link.commands.toList = numbers := by
    refine history_induction (P := fun past now => now.Roomy ∧
      (gather released m past).map Graph.generation ++
        held now.session.voice now.session.link.retired now.session.link.commands.toList =
          (gather accepted m past).map Graph.generation) ?_ ?_ actions
    · exact ⟨roomy_start sampleRate channels settings, rfl⟩
    · rintro past action ⟨hroomy, hheld⟩
      refine ⟨hroomy.act action, ?_⟩
      have hstep := released_append_held hroomy action
      dsimp only at hstep
      rw [gather_concat, gather_concat, List.map_append, List.map_append, List.append_assoc, hstep,
        ← List.append_assoc, hheld]
  have horderly : s.voice.heard.Orderly s.link.commands.toList := hroomy.room.orderly
  have hwaiting : s.link.retired.toList.length + stops s.link.commands.toList ≤
      s.link.retired.capacity := hroomy.room.waiting
  intro first rest hsplit
  rw [hsplit] at horderly hwaiting hheld
  refine ⟨?_, ?_⟩
  · rw [← hheld]
    exact congrArg _ (held_obey horderly hwaiting)
  · rintro c more g rfl hc
    exact room_obey horderly hwaiting hc

/-! ## A run that is stopped -/

/-- The graph of the number one. -/
def oneGraph (settings : BuildSettings) : Graph where
  nodes := #[.constant 1.0]
  memories := #[.none]
  values := #[0.0]
  plan := [0]
  root := 0
  clock := .start settings.sampleRate
  seed := settings.seed
  generation := 0

theorem compile_one_eq_ok (settings : BuildSettings)
    (hrate : Arena.checkSampleRate settings.sampleRate = .ok ()) :
    compile settings "1" = .ok (oneGraph settings) := by
  let one : Token := ⟨.number 1.0, "1", 0⟩
  have hscan : Token.scan "1" = [one, ⟨.eof, "", 1⟩] := by decide +kernel
  have hphrase : Grammar.Expression maxDepth 1 [one] (.number 1.0 0) :=
    .additive (by decide) (.first (.first (.primary (.number (t := one) rfl))))
  have hparse : Expr.parse (Token.scan "1") = .ok (.number 1.0 0) := by
    rw [hscan]
    refine Expr.parse_of_expression hphrase (not_eof_of_mem_number 1.0 "1" 0) ?_
    intro t ht
    cases ht
    rfl
  let arena : Arena := #[⟨.constant 1.0, some 0⟩]
  have horder : arena.order 0 = .ok [0] := by
    simp [Arena.order, Arena.search_enter, Arena.search, Arena.inputsOf, Node.inputNodes,
      Node.inputs, Signal.node?, arena]
  have hfinish : arena.finish settings 0 = .ok (oneGraph settings) :=
    Arena.finish_eq_ok_iff.2
      ⟨hrate, by decide, rfl, _, _, horder, rfl, by simp [arena, oneGraph]⟩
  have hcheck : checkSource "1" = .ok (.number 1.0 0) := by
    rw [checkSource, parseSource, hparse]
    rfl
  rw [compile, hcheck]
  exact congrArg (Except.mapError Rejection.ofBuild) hfinish

/-- The number one is a source that is built. -/
theorem compile_one (settings : BuildSettings)
    (hrate : Arena.checkSampleRate settings.sampleRate = .ok ()) :
    ∃ g, compile settings "1" = .ok g :=
  ⟨_, compile_one_eq_ok settings hrate⟩

/-- A run of the number one builds its graph. -/
theorem proceed_one (s : Session)
    (hrate : Arena.checkSampleRate s.control.settings.sampleRate = .ok ()) :
    proceed ⟨s, .silenced "1"⟩ =
      ⟨{ s with control := { s.control with
          state := .building
          lastError := none
          generation := s.control.generation + 1 } },
        .built ((oneGraph s.control.settings).numbered (s.control.generation + 1))⟩ := by
  rw [proceed, Session.build_of_compile (compile_one_eq_ok s.control.settings hrate)]

/-- A session that has been asked to run the number one has built its graph. -/
theorem start_run_one (sampleRate : UInt32) (channels : Nat) (settings : Settings)
    (hrate : Arena.checkSampleRate (.ofNat sampleRate.toNat) = .ok ()) :
    let s := Session.start sampleRate channels settings
    ∃ g, compile s.control.settings "1" = .ok g ∧
      (start sampleRate channels settings).after [.run "1", .proceed, .proceed] =
        ⟨{ s with control := { s.control with state := .building, generation := 1 } },
          .built (g.numbered 1)⟩ := by
  intro s
  exact ⟨_, compile_one_eq_ok s.control.settings hrate, proceed_one s hrate⟩

/-- The stop that waits behind the first graph of a session finds room for it. -/
theorem stop_behind_play_finds_room :
    let m := start 48000 2 .default
    let actions := [.run "1", .proceed, .proceed, .proceed, .stop, .proceed]
    let s := (m.after actions).session
    ∃ g, s.link.commands.toList = [.play g] ++ [.stop] ∧
      let last := [.play g].foldl Voice.obey (s.voice, s.link.retired)
      (gather released m actions).map Graph.generation ++ held last.1 last.2 [.stop] =
          (gather accepted m actions).map Graph.generation ∧
        (last.2.push? g).isSome := by
  intro m actions s
  obtain ⟨g, -, hbuilt⟩ := start_run_one 48000 2 .default (if_pos (by decide))
  have hcommands : s.link.commands.toList = [.play (g.numbered 1)] ++ [.stop] := by
    show ((m.after [.run "1", .proceed, .proceed]).after
      [.proceed, .stop, .proceed]).session.link.commands.toList = _
    rw [hbuilt]
    rfl
  obtain ⟨-, hplace⟩ := every_graph_in_one_place 48000 2 .default actions
  obtain ⟨hnumbers, hroom⟩ := hplace [.play (g.numbered 1)] [.stop] hcommands
  exact ⟨_, hcommands, hnumbers, hroom .stop [] _ rfl nofun rfl⟩

end Moment

end ToneGraph
