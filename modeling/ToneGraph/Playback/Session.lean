import ToneGraph.Compile
import ToneGraph.Playback.AudioError
import ToneGraph.Playback.Voice
import ToneGraph.Settings
/-!
# Sessions

A session is a control side and an audio side with bounded queues between them: commands go one way,
graphs that no longer play and samples for the scope come back. Each request of the control side is
made of steps, and blocks of the audio side may fall between any two of them: collecting, asking to
stop, building, asking to play.

## Main definitions

* `Session.start`: a session that plays nothing.
* `Session.run`, `Session.stop`, `Session.setVolume`, `Session.setSeed`, `Session.reclaim`: the
  requests of the control side.
* `Session.process`: one block of the audio side.
-/

namespace ToneGraph

open Synth

/-- What the control side is doing. -/
inductive PlayState where
  | idle | building | playing | failed
  deriving DecidableEq, Repr

/-- The control side of a session. -/
structure Control where
  state : PlayState
  /-- How many graphs have been built. -/
  generation : Nat
  volume : Float32
  settings : BuildSettings
  /-- Why the last source was refused, if it was. -/
  lastError : Option Rejection
  /-- Whether a reader has the scope. -/
  scopeTaken : Bool

/-- The queues between the two sides. -/
structure Link where
  commands : BoundedQueue Command
  /-- Graphs that no longer play. -/
  retired : BoundedQueue Graph
  /-- One sample per frame that was played. -/
  scope : Option (BoundedQueue Float32)

/-- Both sides and the queues between them. -/
structure Session where
  control : Control
  link : Link
  voice : Voice

namespace Session

/-- A session that plays nothing. There is room for two commands at least. -/
def start (sampleRate : UInt32) (channels : Nat) (settings : Settings) : Session :=
  let capacity := max settings.commandCapacity.toNat 2
  let volume := clamp32 0.0 1.0 settings.masterVolume
  let scope :=
    if 0 < settings.scopeCapacity then some (.empty settings.scopeCapacity.toNat) else none
  { control := {
      state := .idle
      generation := 0
      volume
      settings := ⟨Float.ofNat sampleRate.toNat, settings.seed, settings.maxDelaySeconds⟩
      lastError := none
      scopeTaken := false }
    link := ⟨.empty capacity, .empty capacity, scope⟩
    voice := .silent volume (.ofCeiling settings.ceiling) channels }

/-! ## Steps of the control side -/

/-- The control side goes to another state. -/
def enter (s : Session) (state : PlayState) : Session :=
  { s with control := { s.control with state } }

/-- Sends a command, if there is room for it. -/
def send? (s : Session) (c : Command) : Option Session :=
  (s.link.commands.push? c).map fun commands => { s with link := { s.link with commands } }

/-- Collects the graphs that no longer play. -/
def reclaim (s : Session) : List Graph × Session :=
  let (graphs, retired) := s.link.retired.drain
  (graphs, { s with link := { s.link with retired } })

/-- Asks the audio side to stop, if it plays. -/
def halt (s : Session) : Except AudioError Unit × Session :=
  if s.control.state = .playing then
    match s.send? .stop with
    | some s => (.ok (), s.enter .idle)
    | none => (.error .queueFull, s)
  else (.ok (), s)

/-- Builds the graph of a source and numbers it. A refusal is kept for later questions. -/
def build (s : Session) (source : String) : Except Rejection Graph × Session :=
  let s := s.enter .building
  match compile s.control.settings source with
  | .error why =>
    let s := s.enter .failed
    let s := { s with control := { s.control with lastError := some why } }
    (.error why, s.enter .idle)
  | .ok g =>
    let generation := s.control.generation + 1
    (.ok { g with generation },
      { s with control := { s.control with lastError := none, generation } })

/-- Asks the audio side to play a graph. -/
def launch (s : Session) (g : Graph) : Except AudioError Unit × Session :=
  match s.send? (.play g) with
  | some s => (.ok (), s.enter .playing)
  | none => (.error .queueFull, s.enter .idle)

/-! ## Requests of the control side -/

/-- Stops what plays. On a full queue nothing changes but that graphs are collected. -/
def stop (s : Session) : Except AudioError Unit × Session :=
  s.reclaim.2.halt

/-- Stops what plays and plays a source in its place. -/
def run (s : Session) (source : String) : Except RunError Unit × Session :=
  match s.stop with
  | (.error why, s) => (.error (.audio why), s)
  | (.ok (), s) =>
    match s.build source with
    | (.error why, s) => (.error (.rejected why), s)
    | (.ok g, s) =>
      let (result, s) := s.launch g
      (result.mapError .audio, s)

/-- Sets the volume on both sides. -/
def setVolume (s : Session) (volume : Float32) : Except AudioError Unit × Session :=
  let volume := volumeShare volume
  match s.send? (.setVolume volume) with
  | some s => (.ok (), { s with control := { s.control with volume } })
  | none => (.error .queueFull, s)

/-- Sets where the random numbers of later graphs start. -/
def setSeed (s : Session) (seed : UInt64) : Session :=
  { s with control := { s.control with settings := { s.control.settings with seed } } }

/-- Hands the scope to a reader, once. -/
def takeScope (s : Session) : Bool × Session :=
  (s.link.scope.isSome && !s.control.scopeTaken,
    { s with control := { s.control with scopeTaken := true } })

/-- The reader of the scope takes up to a number of samples. -/
def readScope (s : Session) (count : Nat) : List Float32 × Session :=
  match s.link.scope with
  | none => ([], s)
  | some scope =>
    let (samples, scope) := scope.take count
    (samples, { s with link := { s.link with scope := some scope } })

/-! ## The audio side -/

/-- The voice obeys all commands that wait. -/
def drain : Session → Session
  | ⟨control, ⟨commands, retired, scope⟩, voice⟩ =>
    let (waiting, commands) := commands.drain
    let (voice, retired) := waiting.foldl Voice.obey (voice, retired)
    ⟨control, ⟨commands, retired, scope⟩, voice⟩

/-- One block: the commands that wait, then the samples. Nothing to play gives zeros. What the scope
has no room for is lost to it. -/
def process (s : Session) (samples : Nat) : List Float32 × Session :=
  match s.drain with
  | ⟨control, ⟨commands, retired, scope⟩, voice⟩ =>
    if voice.graph.isNone then
      (List.replicate samples 0.0, ⟨control, ⟨commands, retired, scope⟩, voice⟩)
    else
      let channels := voice.channels
      let (frames, voice) := voice.play samples
      let scope := scope.map fun queue => frames.foldl BoundedQueue.offer queue
      (Voice.interleave channels samples frames, ⟨control, ⟨commands, retired, scope⟩, voice⟩)

/-! ## One step each -/

theorem send?_eq_none_iff {s : Session} {c : Command} :
    s.send? c = none ↔ s.link.commands.toList.length = s.link.commands.capacity := by
  rw [send?, Option.map_eq_none_iff, BoundedQueue.push?_eq_none_iff]

@[simp] theorem reclaim_fst (s : Session) : s.reclaim.1 = s.link.retired.toList := rfl

@[simp] theorem retired_reclaim (s : Session) : s.reclaim.2.link.retired.toList = [] := rfl

@[simp] theorem commands_drain (s : Session) : s.drain.link.commands.toList = [] := rfl

/-- A block holds as many samples as were asked for. -/
@[simp] theorem length_process (s : Session) (samples : Nat) :
    (s.process samples).1.length = samples := by
  unfold process
  split
  split
  · simp
  · rename_i voice _ playing
    have some : voice.graph.isSome := by simpa [Option.isSome_iff_ne_none] using playing
    rw [Voice.length_interleave, Voice.length_play some]
    exact Nat.min_eq_left (Voice.le_framesFor_mul voice.channels_pos samples)

end Session

end ToneGraph
