import ToneGraph.Proofs.Playback.Blocks
/-!
# The scope

The scope is a queue between the audio side, which offers one sample for every frame it plays, and
a reader, who comes at any time: between two actions of a session, and also between two frames of a
block.  What the reader has taken and what still waits are, in a row, the samples that were offered,
without those that found the queue full.

Nobody waits for the reader.  The control side does not look at the scope, and a block plays before
it offers, so everything else goes on as in a session without a scope: no sample of the output
depends on how long the scope is or when it is read.

## Main definitions

* `BoundedQueue.pass`, `BoundedQueue.offers`: items that pass a reader on their way into a queue.
* `Session.processRead`: a block during which the scope is read.
* `Event`, `Moment.step`, `Moment.through`: actions with readings of the scope between frames.
* `Session.withScope`: a session with another scope, or none.

## Main statements

* `BoundedQueue.pass_append_toList`: what is read and what is left are what found room.
* `Moment.step_eq_act`: an event without readings is an action.
* `Moment.Tapped.step`: what one event keeps of the row of received and waiting samples.
* `Moment.step_withScope`: an event does the same to a session without a scope.
* `Moment.scope_taps_output`: both together, over all events.
-/

namespace ToneGraph

open Synth

/-! ## Items on their way into a queue -/

/-- An item that is offered, and how many items wait at that moment. -/
structure Offer (α : Type) where
  item : α
  waiting : Nat

/-- The items that find less than `capacity` others waiting. -/
def Offer.found {α : Type} (capacity : Nat) (offers : List (Offer α)) : List α :=
  (offers.filter (·.waiting < capacity)).map Offer.item

theorem Offer.found_append {α : Type} (capacity : Nat) (before after : List (Offer α)) :
    found capacity (before ++ after) = found capacity before ++ found capacity after := by
  rw [found, List.filter_append, List.map_append]
  rfl

namespace BoundedQueue

variable {α : Type}

/-- A reader takes some items, or does not come. -/
def visit (q : BoundedQueue α) : Option Nat → List α × BoundedQueue α
  | none => ([], q)
  | some count => q.take count

/-- Items are offered one by one, and after each of them the reader may come.  What the reader
takes, and the queue that is left. -/
def pass : BoundedQueue α → List α → List (Option Nat) → List α × BoundedQueue α
  | q, [], _ => ([], q)
  | q, x :: rest, visits =>
    let (first, q) := (q.offer x).visit (visits.headD none)
    let (more, q) := q.pass rest visits.tail
    (first ++ more, q)

/-- The items with the number of items that each finds waiting. -/
def offers : BoundedQueue α → List α → List (Option Nat) → List (Offer α)
  | _, [], _ => []
  | q, x :: rest, visits =>
    ⟨x, q.toList.length⟩ :: ((q.offer x).visit (visits.headD none)).2.offers rest visits.tail

theorem visit_append (q : BoundedQueue α) (count : Option Nat) :
    (q.visit count).1 ++ (q.visit count).2.toList = q.toList := by
  cases count with
  | none => rfl
  | some n => exact q.take_append n

theorem capacity_visit (q : BoundedQueue α) (count : Option Nat) :
    (q.visit count).2.capacity = q.capacity := by
  cases count <;> rfl

theorem capacity_pass (q : BoundedQueue α) (items : List α) (visits : List (Option Nat)) :
    (q.pass items visits).2.capacity = q.capacity := by
  induction items generalizing q visits with
  | nil => rfl
  | cons x rest ih =>
      rw [pass, ih, capacity_visit, capacity_offer]

theorem item_offers (q : BoundedQueue α) (items : List α) (visits : List (Option Nat)) :
    (q.offers items visits).map Offer.item = items := by
  induction items generalizing q visits with
  | nil => rfl
  | cons x rest ih => rw [offers, List.map_cons, ih]

theorem waiting_offers_le (q : BoundedQueue α) (items : List α) (visits : List (Option Nat)) :
    ∀ o ∈ q.offers items visits, o.waiting ≤ q.capacity := by
  induction items generalizing q visits with
  | nil => nofun
  | cons x rest ih =>
      have htail := ih ((q.offer x).visit (visits.headD none)).2 visits.tail
      rw [capacity_visit, capacity_offer] at htail
      exact List.forall_mem_cons.2 ⟨q.length_toList_le, htail⟩

/-- What the reader takes and what is left are, in a row, what was there and what found room. -/
theorem pass_append_toList (q : BoundedQueue α) (items : List α) (visits : List (Option Nat)) :
    (q.pass items visits).1 ++ (q.pass items visits).2.toList =
      q.toList ++ Offer.found q.capacity (q.offers items visits) := by
  induction items generalizing q visits with
  | nil =>
      rw [pass, offers, List.nil_append]
      exact (List.append_nil _).symm
  | cons x rest ih =>
      have htail := ih ((q.offer x).visit (visits.headD none)).2 visits.tail
      rw [capacity_visit, capacity_offer] at htail
      rw [pass, offers, List.append_assoc, htail, ← List.append_assoc, visit_append, toList_offer,
        Offer.found, Offer.found]
      by_cases hroom : q.toList.length < q.capacity
      · rw [if_pos hroom, List.filter_cons_of_pos (by simpa using hroom), List.map_cons,
          List.append_assoc, List.singleton_append]
      · rw [if_neg hroom, List.filter_cons_of_neg (by simpa using hroom)]

/-- A reader who does not come changes nothing. -/
theorem pass_nil (q : BoundedQueue α) (items : List α) :
    q.pass items [] = ([], items.foldl offer q) := by
  induction items generalizing q with
  | nil => rfl
  | cons x rest ih =>
      rw [pass, List.headD_nil, visit, List.tail_nil]
      dsimp only
      rw [ih, List.foldl_cons, List.nil_append]

end BoundedQueue

/-! ## Blocks with readings -/

namespace Session

/-- A block, after whose frames the reader of the scope may come: its samples, what the reader
takes, and the session after it. -/
def processRead (s : Session) (samples : Nat) (visits : List (Option Nat)) :
    (List Float32 × List Float32) × Session :=
  match s.drain with
  | ⟨control, ⟨commands, retired, scope⟩, voice⟩ =>
    if voice.graph.isNone then
      ((List.replicate samples 0.0, []), ⟨control, ⟨commands, retired, scope⟩, voice⟩)
    else
      let channels := voice.channels
      let (frames, voice) := voice.play samples
      let passed := scope.map fun queue => queue.pass frames visits
      ((Voice.interleave channels samples frames, (passed.map Prod.fst).getD []),
        ⟨control, ⟨commands, retired, passed.map Prod.snd⟩, voice⟩)

/-- The frames of a block with what waits in the scope before each. -/
def offers (s : Session) (samples : Nat) (visits : List (Option Nat)) : List (Offer Float32) :=
  match s.link.scope with
  | none => []
  | some queue => queue.offers (s.drain.voice.play samples).1 visits

theorem processRead_of_isNone {s : Session} (h : s.drain.voice.graph.isNone) (samples : Nat)
    (visits : List (Option Nat)) :
    s.processRead samples visits = ((List.replicate samples 0.0, []), s.drain) :=
  if_pos h

theorem processRead_of_not_isNone {s : Session} (h : ¬ s.drain.voice.graph.isNone) (samples : Nat)
    (visits : List (Option Nat)) :
    let v := s.drain.voice
    let next := v.play samples
    let passed := s.link.scope.map fun queue => queue.pass next.1 visits
    s.processRead samples visits =
      ((Voice.interleave v.channels samples next.1, (passed.map Prod.fst).getD []),
        { s.drain with
          link := { s.drain.link with scope := passed.map Prod.snd }
          voice := next.2 }) :=
  if_neg h

/-- The output is that of a block during which nobody reads. -/
theorem output_processRead (s : Session) (samples : Nat) (visits : List (Option Nat)) :
    (s.processRead samples visits).1.1 = (s.process samples).1 := by
  by_cases h : s.drain.voice.graph.isNone
  · rw [processRead_of_isNone h, process_of_isNone h]
  · rw [processRead_of_not_isNone h, process_playing h]

/-- A block during which nobody reads is a block. -/
theorem processRead_nil (s : Session) (samples : Nat) :
    s.processRead samples [] = (((s.process samples).1, []), (s.process samples).2) := by
  by_cases h : s.drain.voice.graph.isNone
  · rw [processRead_of_isNone h, process_of_isNone h]
  · rw [processRead_of_not_isNone h, process_playing h, played]
    obtain ⟨control, ⟨commands, retired, scope⟩, voice⟩ := s
    cases scope with
    | none => rfl
    | some queue =>
        simp only [Option.map_some, BoundedQueue.pass_nil, Option.getD_some]
        rfl

/-- A block without a graph offers nothing to the scope. -/
theorem offers_of_isNone {s : Session} (h : s.drain.voice.graph.isNone) (samples : Nat)
    (visits : List (Option Nat)) : s.offers samples visits = [] := by
  have hnone : s.drain.voice.graph = none := Option.isNone_iff_eq_none.1 h
  have hplay : (s.drain.voice.play samples).1 = [] := by
    rw [Voice.play_fst, Voice.pull, hnone]
    rfl
  unfold offers
  split
  · rfl
  · rw [hplay]
    rfl

/-- What the reader takes during a block, and what is left, are what waited and what found room. -/
theorem processRead_append (s : Session) (samples : Nat) (visits : List (Option Nat))
    {queue : BoundedQueue Float32} (hscope : s.link.scope = some queue) :
    ∃ left, (s.processRead samples visits).2.link.scope = some left ∧
      left.capacity = queue.capacity ∧
      (s.processRead samples visits).1.2 ++ left.toList =
        queue.toList ++ Offer.found queue.capacity (s.offers samples visits) := by
  by_cases h : s.drain.voice.graph.isNone
  · rw [processRead_of_isNone h, offers_of_isNone h]
    exact ⟨queue, hscope, rfl, (List.append_nil _).symm⟩
  · rw [processRead_of_not_isNone h, offers, hscope]
    exact ⟨_, rfl, queue.capacity_pass _ _, queue.pass_append_toList _ _⟩

theorem waiting_offers_le (s : Session) (samples : Nat) (visits : List (Option Nat))
    {queue : BoundedQueue Float32} (hscope : s.link.scope = some queue) :
    ∀ o ∈ s.offers samples visits, o.waiting ≤ queue.capacity := by
  rw [offers, hscope]
  exact queue.waiting_offers_le _ _

/-- What the reader takes between blocks, and what is left, are what waited. -/
theorem readScope_append (s : Session) (count : Nat) {queue : BoundedQueue Float32}
    (hscope : s.link.scope = some queue) :
    ∃ left, (s.readScope count).2.link.scope = some left ∧ left.capacity = queue.capacity ∧
      (s.readScope count).1 ++ left.toList = queue.toList := by
  rw [readScope, hscope]
  exact ⟨_, rfl, rfl, queue.take_append count⟩

end Session

/-! ## Another scope -/

namespace Session

/-- A session with another scope. -/
def withScope (s : Session) (scope : Option (BoundedQueue Float32)) : Session :=
  { s with link := { s.link with scope } }

variable (s : Session) (scope : Option (BoundedQueue Float32))

theorem send?_withScope (c : Command) :
    (s.withScope scope).send? c = (s.send? c).map (withScope · scope) := by
  rw [send?, send?, Option.map_map]
  rfl

theorem halt_withScope :
    (s.withScope scope).halt = (s.halt.1, s.halt.2.withScope scope) := by
  unfold halt
  by_cases hstate : s.control.state = .playing
  · rw [if_pos hstate, if_pos (show (s.withScope scope).control.state = .playing from hstate),
      send?_withScope]
    cases s.send? .stop <;> rfl
  · rw [if_neg hstate, if_neg (show (s.withScope scope).control.state ≠ .playing from hstate)]

theorem build_withScope (source : String) :
    (s.withScope scope).build source =
      ((s.build source).1, (s.build source).2.withScope scope) := by
  have hsettings : ((s.withScope scope).enter .building).control.settings =
      (s.enter .building).control.settings := rfl
  unfold build
  dsimp only
  rw [hsettings]
  cases compile (s.enter .building).control.settings source <;> rfl

theorem launch_withScope (g : Graph) :
    (s.withScope scope).launch g = ((s.launch g).1, (s.launch g).2.withScope scope) := by
  unfold launch
  rw [send?_withScope]
  cases s.send? (.play g) <;> rfl

theorem setVolume_withScope (volume : Float32) :
    (s.withScope scope).setVolume volume =
      ((s.setVolume volume).1, (s.setVolume volume).2.withScope scope) := by
  unfold setVolume
  dsimp only
  rw [send?_withScope]
  cases s.send? (.setVolume (volumeShare volume)) <;> rfl

theorem readScope_withScope (count : Nat) :
    (s.readScope count).2.withScope scope = s.withScope scope := by
  unfold readScope
  split <;> rfl

/-- A block is the same with a reader, whatever the scope is. -/
theorem processRead_withScope (samples : Nat) (visits : List (Option Nat)) :
    let bare := s.withScope none
    bare.process samples =
      ((s.processRead samples visits).1.1, (s.processRead samples visits).2.withScope none) := by
  intro bare
  by_cases h : s.drain.voice.graph.isNone
  · rw [processRead_of_isNone h, process_of_isNone (show bare.drain.voice.graph.isNone from h)]
    rfl
  · rw [processRead_of_not_isNone h, process_playing (show ¬ bare.drain.voice.graph.isNone from h)]
    rfl

/-- A reader leaves everything but the scope as it is after a block during which nobody reads. -/
theorem rest_processRead (samples : Nat) (visits : List (Option Nat)) :
    (s.processRead samples visits).2.withScope none = (s.process samples).2.withScope none := by
  have hread := congrArg Prod.snd (s.processRead_withScope samples visits)
  have halone := congrArg Prod.snd (s.processRead_withScope samples [])
  rw [s.processRead_nil samples] at halone
  exact hread.symm.trans halone

end Session

/-! ## Events -/

/-- An action, and when the reader of the scope comes while it is done, if it is a block: for every
frame, how much the reader takes after it, if the reader comes. -/
structure Event where
  action : Action
  visits : List (Option Nat)

/-- Whether an action is one of the control side. -/
def Action.IsControl : Action → Prop
  | .block _ | .readScope _ => False
  | _ => True

/-- The action of an event in a session without a reader. -/
def Event.unread : Event → List Action
  | ⟨.readScope _, _⟩ => []
  | ⟨action, _⟩ => [action]

namespace Moment

/-- One event. -/
def step : Moment → Event → Moment
  | ⟨s, phase⟩, ⟨.block samples, visits⟩ => ⟨(s.processRead samples visits).2, phase⟩
  | m, ⟨action, _⟩ => m.act action

/-- Where things stand after some events. -/
def through (m : Moment) (events : List Event) : Moment :=
  events.foldl step m

/-- The notes that are taken of some events, each at the moment at which the event comes. -/
def collect {α : Type} (note : Moment → Event → List α) (m : Moment) : List Event → List α
  | [] => []
  | event :: rest => note m event ++ collect note (m.step event) rest

/-- The samples of a block. -/
def output : Moment → Event → List Float32
  | ⟨s, _⟩, ⟨.block samples, visits⟩ => (s.processRead samples visits).1.1
  | _, _ => []

/-- What the reader of the scope takes. -/
def received : Moment → Event → List Float32
  | ⟨s, _⟩, ⟨.block samples, visits⟩ => (s.processRead samples visits).1.2
  | ⟨s, _⟩, ⟨.readScope count, _⟩ => (s.readScope count).1
  | _, _ => []

/-- The samples that are offered to the scope. -/
def offered : Moment → Event → List (Offer Float32)
  | ⟨s, _⟩, ⟨.block samples, visits⟩ => s.offers samples visits
  | _, _ => []

/-- The samples of a block during which nobody reads. -/
def sound : Moment → Action → List Float32
  | ⟨s, _⟩, .block samples => (s.process samples).1
  | _, _ => []

/-- If nobody comes while they are done, events are actions. -/
theorem step_eq_act (m : Moment) (action : Action) : m.step ⟨action, []⟩ = m.act action := by
  obtain ⟨s, phase⟩ := m
  cases action with
  | block samples =>
      rw [step, s.processRead_nil samples]
      rfl
  | _ => rfl

/-! ## The control side and the scope -/

/-- A moment with another scope. -/
def withScope (m : Moment) (scope : Option (BoundedQueue Float32)) : Moment :=
  ⟨m.session.withScope scope, m.phase⟩

theorem proceed_withScope (m : Moment) (scope : Option (BoundedQueue Float32)) :
    (m.withScope scope).proceed = m.proceed.withScope scope := by
  obtain ⟨s, phase⟩ := m
  rw [withScope, proceed.eq_def, proceed.eq_def ⟨s, phase⟩]
  cases phase with
  | ready => rfl
  | stopping =>
      dsimp only
      rw [s.halt_withScope scope]
      rfl
  | replacing source =>
      dsimp only
      rw [s.halt_withScope scope]
      cases s.halt with
      | mk result t => cases result <;> rfl
  | silenced source =>
      dsimp only
      rw [s.build_withScope scope source]
      cases s.build source with
      | mk result t => cases result <;> rfl
  | built g =>
      dsimp only
      rw [s.launch_withScope scope g]
      rfl

/-- The control side does not depend on the scope and does not touch it. -/
theorem act_withScope (m : Moment) (scope : Option (BoundedQueue Float32)) {action : Action}
    (h : action.IsControl) : (m.withScope scope).act action = (m.act action).withScope scope := by
  obtain ⟨s, phase⟩ := m
  cases action with
  | block | readScope => contradiction
  | proceed => exact proceed_withScope ⟨s, phase⟩ scope
  | setVolume volume =>
      cases phase with
      | ready =>
          show Moment.mk ((s.withScope scope).setVolume volume).2 .ready = _
          rw [s.setVolume_withScope scope volume]
          rfl
      | _ => rfl
  | _ => cases phase <;> rfl

theorem scope_act (m : Moment) {action : Action} (h : action.IsControl) :
    (m.act action).session.link.scope = m.session.link.scope :=
  congrArg (·.session.link.scope) (m.act_withScope m.session.link.scope h)

/-- An event of the control side is its action, and has nothing to do with samples. -/
theorem step_of_isControl (m : Moment) (event : Event) (h : event.action.IsControl) :
    m.step event = m.act event.action ∧ received m event = [] ∧ offered m event = [] ∧
      output m event = [] ∧ event.unread = [event.action] := by
  obtain ⟨action, visits⟩ := event
  cases action with
  | block | readScope => contradiction
  | _ => exact ⟨rfl, rfl, rfl, rfl, rfl⟩

/-! ## What reaches the reader -/

/-- What was received, and what waits in the scope, are in a row what was offered and found room. -/
def Tapped (m : Moment) (capacity : Nat) (received : List Float32)
    (offered : List (Offer Float32)) : Prop :=
  ∃ queue, m.session.link.scope = some queue ∧ queue.capacity = capacity ∧
    received ++ queue.toList = Offer.found capacity offered ∧ ∀ o ∈ offered, o.waiting ≤ capacity

variable {m : Moment} {capacity : Nat} {taken : List Float32} {brought : List (Offer Float32)}

theorem Tapped.step (h : m.Tapped capacity taken brought) (event : Event) :
    (m.step event).Tapped capacity (taken ++ received m event) (brought ++ offered m event) := by
  obtain ⟨queue, hscope, hcapacity, hrow, hwaiting⟩ := h
  obtain ⟨action, visits⟩ := event
  by_cases hcontrol : action.IsControl
  · obtain ⟨hstep, hreceived, hoffered, -⟩ := m.step_of_isControl ⟨action, visits⟩ hcontrol
    rw [hstep, hreceived, hoffered, List.append_nil, List.append_nil]
    exact ⟨queue, (m.scope_act hcontrol).trans hscope, hcapacity, hrow, hwaiting⟩
  · obtain ⟨s, phase⟩ := m
    cases action with
    | block samples =>
        obtain ⟨left, hleft, hsame, hpassed⟩ := s.processRead_append samples visits hscope
        refine ⟨left, hleft, hsame.trans hcapacity, ?_, ?_⟩
        · rw [hcapacity] at hpassed
          rw [List.append_assoc, received, hpassed, ← List.append_assoc, hrow, Offer.found_append,
            offered]
        · refine List.forall_mem_append.2 ⟨hwaiting, ?_⟩
          rw [← hcapacity]
          exact s.waiting_offers_le samples visits hscope
    | readScope count =>
        have hoffered : offered ⟨s, phase⟩ ⟨.readScope count, visits⟩ = [] := rfl
        obtain ⟨left, hleft, hsame, hread⟩ := s.readScope_append count hscope
        rw [hoffered, List.append_nil]
        refine ⟨left, hleft, hsame.trans hcapacity, ?_, hwaiting⟩
        rw [List.append_assoc, received, hread, hrow]
    | _ => exact absurd trivial hcontrol

theorem Tapped.through (h : m.Tapped capacity taken brought) (events : List Event) :
    (m.through events).Tapped capacity (taken ++ collect received m events)
      (brought ++ collect offered m events) := by
  induction events generalizing m taken brought with
  | nil =>
      rw [collect, collect, List.append_nil, List.append_nil]
      exact h
  | cons event rest ih =>
      have hrest := ih (h.step event)
      rw [List.append_assoc, List.append_assoc] at hrest
      exact hrest

/-! ## Without a scope -/

/-- An event does the same to a session without a scope, and gives it the same output. -/
theorem step_withScope (m : Moment) (event : Event) :
    (m.step event).withScope none = (m.withScope none).after event.unread ∧
      output m event = gather sound (m.withScope none) event.unread := by
  obtain ⟨action, visits⟩ := event
  by_cases hcontrol : action.IsControl
  · obtain ⟨hstep, -, -, houtput, hunread⟩ := m.step_of_isControl ⟨action, visits⟩ hcontrol
    rw [hstep, houtput, hunread]
    refine ⟨(m.act_withScope none hcontrol).symm, ?_⟩
    cases action with
    | block | readScope => contradiction
    | _ => rfl
  · obtain ⟨s, phase⟩ := m
    cases action with
    | block samples =>
        have hbare := s.processRead_withScope samples visits
        exact ⟨congrArg (Moment.mk ·.2 phase) hbare.symm,
          ((List.append_nil _).trans (congrArg Prod.fst hbare)).symm⟩
    | readScope count =>
        exact ⟨congrArg (Moment.mk · phase) (s.readScope_withScope none count), rfl⟩
    | _ => exact absurd trivial hcontrol

theorem through_withScope (m : Moment) (events : List Event) :
    (m.through events).withScope none = (m.withScope none).after (events.flatMap Event.unread) ∧
      collect output m events = gather sound (m.withScope none) (events.flatMap Event.unread) := by
  induction events generalizing m with
  | nil => exact ⟨rfl, rfl⟩
  | cons event rest ih =>
      obtain ⟨hstep, houtput⟩ := m.step_withScope event
      obtain ⟨hthrough, hcollect⟩ := ih (m.step event)
      rw [List.flatMap_cons, after_append, gather_append, collect, ← hstep, ← houtput, ← hcollect]
      exact ⟨hthrough, rfl⟩

/-! ## The tap -/

theorem offered_of_scope {queue : BoundedQueue Float32} (hscope : m.session.link.scope = some queue)
    (samples : Nat) (visits : List (Option Nat)) :
    offered m ⟨.block samples, visits⟩ =
      queue.offers (m.session.drain.voice.play samples).1 visits := by
  obtain ⟨s, phase⟩ := m
  rw [offered, Session.offers, hscope]

/-- What a block without a graph, and one with a graph, offers to the scope and puts out. -/
theorem offered_block (m : Moment) (samples : Nat) (visits : List (Option Nat))
    (hscope : m.session.link.scope ≠ none) :
    let voice := m.session.drain.voice
    let frames := (offered m ⟨.block samples, visits⟩).map Offer.item
    let block := output m ⟨.block samples, visits⟩
    voice.graph = none ∧ frames = [] ∧ block = List.replicate samples 0.0 ∨
      ∃ g, voice.graph = some g ∧
        frames = (g.render (Voice.framesFor voice.channels samples)).1.toList.map
          (Voice.level voice.limiter voice.volume) ∧
        ∀ i < samples, block[i]? = frames[i / voice.channels]? := by
  intro voice frames block
  obtain ⟨s, phase⟩ := m
  obtain ⟨queue, hqueue⟩ := Option.ne_none_iff_exists'.1 hscope
  have hframes : frames = (voice.play samples).1 := by
    dsimp only [frames]
    rw [offered_of_scope hqueue, BoundedQueue.item_offers]
  have hblock : block = (s.process samples).1 := s.output_processRead samples visits
  cases hlive : voice.graph with
  | none =>
      refine .inl ⟨rfl, ?_, ?_⟩
      · rw [hframes, Voice.play_fst, Voice.pull, hlive]
        rfl
      · rw [hblock, Session.process_fst_of_none hlive]
  | some g =>
      refine .inr ⟨g, rfl, ?_, ?_⟩
      · rw [hframes, Voice.play_fst, Voice.pull_of_some hlive]
      · intro i hi
        rw [hblock, hframes, Session.process_fst_of_some hlive]
        exact Voice.getElem?_interleave voice.channels_pos hi _

/-- **The scope taps the output.**  Whatever the control side, the audio side and the reader do, and
in whatever order, what the reader has taken and what still waits are, in a row, the samples that
were offered, without those that found as many waiting as there is room for.  A block offers nothing
if no graph plays; otherwise it offers one sample for each frame, which is what all channels of the
frame have.  And all blocks are those of a session without a scope, so the output does not depend on
the length of the scope or on its reader.

An event is the action of a session, with readings of the scope in a block: without them it is the
action, and with them a block has the same samples and leaves everything but the scope as it is. -/
theorem scope_taps_output (sampleRate : UInt32) (channels : Nat) (settings : Settings)
    (hcapacity : 0 < settings.scopeCapacity) (events : List Event) :
    let m := start sampleRate channels settings
    let capacity := settings.scopeCapacity.toNat
    (∃ queue, (m.through events).session.link.scope = some queue ∧ queue.capacity = capacity ∧
      collect received m events ++ queue.toList = Offer.found capacity (collect offered m events) ∧
      ∀ o ∈ collect offered m events, o.waiting ≤ capacity) ∧
    (∀ past samples visits rest, events = past ++ ⟨.block samples, visits⟩ :: rest →
      let now := m.through past
      let voice := now.session.drain.voice
      let frames := (offered now ⟨.block samples, visits⟩).map Offer.item
      let block := output now ⟨.block samples, visits⟩
      voice.graph = none ∧ frames = [] ∧ block = List.replicate samples 0.0 ∨
        ∃ g, voice.graph = some g ∧
          frames = (g.render (Voice.framesFor (max channels 1) samples)).1.toList.map
            (Voice.written (ceilingInForce settings.ceiling) voice.volume) ∧
          ∀ i < samples, block[i]? = frames[i / max channels 1]?) ∧
    collect output m events =
      gather sound (start sampleRate channels { settings with scopeCapacity := 0 })
        (events.flatMap Event.unread) ∧
    (∀ now action, step now ⟨action, []⟩ = now.act action) ∧
    ∀ (s : Session) (samples : Nat) (visits : List (Option Nat)),
      s.processRead samples [] = (((s.process samples).1, []), (s.process samples).2) ∧
        (s.processRead samples visits).1.1 = (s.process samples).1 ∧
        (s.processRead samples visits).2.withScope none =
          (s.process samples).2.withScope none := by
  intro m capacity
  have hstart : m.Tapped capacity [] [] := by
    refine ⟨.empty capacity, if_pos hcapacity, rfl, rfl, nofun⟩
  have hbare : start sampleRate channels { settings with scopeCapacity := 0 } =
      m.withScope none := rfl
  refine ⟨hstart.through events, ?_, ?_, step_eq_act, ?_⟩
  · rintro past samples visits rest rfl now voice
    obtain ⟨queue, hscope, -⟩ := hstart.through past
    have hblock := now.offered_block samples visits (by rw [hscope]; nofun)
    have hsetup : voice.setup = m.session.voice.setup := by
      have hafter := setup_drain (m.withScope none) (past.flatMap Event.unread)
      rw [← (m.through_withScope past).1] at hafter
      exact hafter
    have hlimiter : voice.limiter = .ofCeiling settings.ceiling := congrArg Prod.fst hsetup
    have hchannels : voice.channels = max channels 1 := congrArg Prod.snd hsetup
    rw [← Voice.level_ofCeiling, ← hlimiter, ← hchannels]
    exact hblock
  · rw [hbare]
    exact (m.through_withScope events).2
  · intro s samples visits
    exact ⟨s.processRead_nil samples, s.output_processRead samples visits,
      s.rest_processRead samples visits⟩

/-- A scope of one sample, and a reader who comes after the first of three frames: the last frame is
lost to the scope. -/
theorem third_frame_finds_no_room :
    let settings : Settings := { Settings.default with scopeCapacity := 1 }
    let m := start 48000 2 settings
    let before : List Event := [⟨.run "1", []⟩, ⟨.proceed, []⟩, ⟨.proceed, []⟩, ⟨.proceed, []⟩]
    let block : Event := ⟨.block 6, [some 1]⟩
    let later := m.through (before ++ [block])
    0 < settings.scopeCapacity ∧
      ∃ a b c queue, (offered (m.through before) block).map Offer.item = [a, b, c] ∧
        later.session.link.scope = some queue ∧
        collect received m (before ++ [block]) ++ queue.toList = [a, b] := by
  intro settings m before block later
  have hcapacity : 0 < settings.scopeCapacity := by decide
  refine ⟨hcapacity, ?_⟩
  obtain ⟨⟨queue, hscope, -, hrow, -⟩, hblocks, -, -, -⟩ :=
    scope_taps_output 48000 2 settings hcapacity (before ++ [block])
  obtain ⟨g, -, hbuilt⟩ := start_run_one 48000 2 settings (if_pos (by decide))
  have hbefore : m.through before =
      (m.after [.run "1", .proceed, .proceed]).after [.proceed] := rfl
  have hlive : (m.through before).session.drain.voice.graph = some (g.numbered 1) := by
    rw [hbefore, hbuilt]
    rfl
  rcases hblocks before 6 [some 1] [] rfl with ⟨hnone, -⟩ | ⟨g', hg', hframes, -⟩
  · exact absurd (hlive.symm.trans hnone) nofun
  have hlength : ((g'.render (Voice.framesFor (max 2 1) 6)).1.toList.map (Voice.written
      (ceilingInForce settings.ceiling) (m.through before).session.drain.voice.volume)).length =
        3 := by
    simp [Voice.framesFor]
  obtain ⟨a, b, c, hthree⟩ := List.length_eq_three.1 hlength
  have hitems : (offered (m.through before) block).map Offer.item = [a, b, c] :=
    hframes.trans hthree
  have hempty : (m.through before).session.link.scope = some (.empty 1) := by
    rw [hbefore, hbuilt]
    rfl
  have hoffered : offered (m.through before) block =
      (BoundedQueue.empty 1).offers [a, b, c] [some 1] := by
    rw [← hitems, offered_of_scope hempty, BoundedQueue.item_offers]
  have hcollect : collect offered m (before ++ [block]) = offered (m.through before) block :=
    List.append_nil _
  refine ⟨a, b, c, queue, hitems, hscope, hrow.trans ?_⟩
  rw [hcollect, hoffered]
  rfl

end Moment

end ToneGraph
