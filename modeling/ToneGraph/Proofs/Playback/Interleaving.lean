import ToneGraph.Playback.Session
/-!
# Interleavings

The control side and the audio side of a session take turns at any point.  A request that takes
several steps is begun by an action of its own and continued by further ones, and blocks of the
audio side and reads of the scope may fall between them.  The control side begins no other request
before the last step.

## Main definitions

* `Phase`: how far the control side has come with a request.
* `Action`: what either side can do next.
* `Moment.after`: where a session and its control side stand after some actions.

## Main statements

* `Moment.after_stop`, `Moment.after_run`: a request that nothing interrupts is the request of
  `ToneGraph.Session`.
-/

namespace ToneGraph

/-- How far the control side has come with a request. -/
inductive Phase where
  /-- Between requests. -/
  | ready
  /-- A stop has collected what no longer plays. -/
  | stopping
  /-- A run has collected what no longer plays. -/
  | replacing (source : String)
  /-- A run has asked for what played before it to stop. -/
  | silenced (source : String)
  /-- A run has built its graph. -/
  | built (graph : Graph)

/-- What happens next to a session. -/
inductive Action where
  /-- The audio side plays a block. -/
  | block (samples : Nat)
  /-- The reader of the scope takes samples. -/
  | readScope (count : Nat)
  | reclaim
  | takeScope
  | setVolume (volume : Float32)
  | setSeed (seed : UInt64)
  /-- The control side begins to stop. -/
  | stop
  /-- The control side begins to run a source. -/
  | run (source : String)
  /-- The control side takes the next step of its request. -/
  | proceed

/-- A session, and how far its control side has come. -/
structure Moment where
  session : Session
  phase : Phase

namespace Moment

/-- A session that has just been made. -/
def start (sampleRate : UInt32) (channels : Nat) (settings : Settings) : Moment :=
  ⟨.start sampleRate channels settings, .ready⟩

/-- The next step of the request under way. -/
def proceed : Moment → Moment
  | ⟨s, .ready⟩ => ⟨s, .ready⟩
  | ⟨s, .stopping⟩ => ⟨s.halt.2, .ready⟩
  | ⟨s, .replacing source⟩ =>
    match s.halt with
    | (.error _, s) => ⟨s, .ready⟩
    | (.ok (), s) => ⟨s, .silenced source⟩
  | ⟨s, .silenced source⟩ =>
    match s.build source with
    | (.error _, s) => ⟨s, .ready⟩
    | (.ok g, s) => ⟨s, .built g⟩
  | ⟨s, .built g⟩ => ⟨(s.launch g).2, .ready⟩

/-- One action.  Blocks and reads may come at any time; a request that comes before the control side
is ready is not made. -/
def act : Moment → Action → Moment
  | ⟨s, phase⟩, .block samples => ⟨(s.process samples).2, phase⟩
  | ⟨s, phase⟩, .readScope count => ⟨(s.readScope count).2, phase⟩
  | ⟨s, .ready⟩, .reclaim => ⟨s.reclaim.2, .ready⟩
  | ⟨s, .ready⟩, .takeScope => ⟨s.takeScope.2, .ready⟩
  | ⟨s, .ready⟩, .setVolume volume => ⟨(s.setVolume volume).2, .ready⟩
  | ⟨s, .ready⟩, .setSeed seed => ⟨s.setSeed seed, .ready⟩
  | ⟨s, .ready⟩, .stop => ⟨s.reclaim.2, .stopping⟩
  | ⟨s, .ready⟩, .run source => ⟨s.reclaim.2, .replacing source⟩
  | m, .proceed => m.proceed
  | m, _ => m

/-- Where things stand after some actions. -/
def after (m : Moment) (actions : List Action) : Moment :=
  actions.foldl act m

theorem after_append (m : Moment) (first rest : List Action) :
    m.after (first ++ rest) = (m.after first).after rest :=
  List.foldl_append

/-- What holds at first and is kept by every action holds after all actions. -/
theorem after_induction {P : Moment → Prop} {m : Moment} (hstart : P m)
    (hact : ∀ m action, P m → P (m.act action)) (actions : List Action) : P (m.after actions) := by
  induction actions generalizing m with
  | nil => exact hstart
  | cons action rest ih => exact ih (hact m action hstart)

/-! ## Requests that nothing interrupts -/

theorem after_stop (s : Session) :
    after ⟨s, .ready⟩ [.stop, .proceed] = ⟨s.stop.2, .ready⟩ :=
  rfl

theorem after_run (s : Session) (source : String) :
    after ⟨s, .ready⟩ [.run source, .proceed, .proceed, .proceed] =
      ⟨(s.run source).2, .ready⟩ := by
  show (proceed ⟨s.reclaim.2, .replacing source⟩).proceed.proceed = _
  rw [Session.run, Session.stop, proceed]
  cases s.reclaim.2.halt with
  | mk result halted =>
      cases result with
      | error why => rfl
      | ok _ =>
          dsimp only
          rw [proceed]
          cases halted.build source with
          | mk result built =>
              cases result with
              | error why => rfl
              | ok g => rfl

end Moment

end ToneGraph
