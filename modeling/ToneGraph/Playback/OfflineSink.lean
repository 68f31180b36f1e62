import ToneGraph.Playback.Session
/-!
# Sinks without a device

A sink that gives its blocks to whoever asks. It is silent until a session is attached, and holds
one session for good.
-/

namespace ToneGraph

/-- A sink with no device behind it. -/
structure OfflineSink where
  sampleRate : UInt32
  /-- Samples per frame. -/
  channels : Nat
  channels_pos : 0 < channels
  session : Option Session

namespace OfflineSink

/-- A sink with no session, with at least one channel. -/
def closed (sampleRate : UInt32) (channels : Nat) : OfflineSink :=
  ⟨sampleRate, max channels 1, max_one_pos channels, none⟩

/-- Starts a session for the sink. Only the first one is accepted. -/
def attach (sink : OfflineSink) (settings : Settings) : Except AudioError OfflineSink :=
  match sink.session with
  | some _ => .error .alreadyOpen
  | none => .ok { sink with session := some (.start sink.sampleRate sink.channels settings) }

/-- Applies a request to the session, if there is one. -/
def withSession (sink : OfflineSink) (request : Session → α × Session) : Option α × OfflineSink :=
  match sink with
  | ⟨sampleRate, channels, positive, none⟩ => (none, ⟨sampleRate, channels, positive, none⟩)
  | ⟨sampleRate, channels, positive, some session⟩ =>
    let (answer, session) := request session
    (some answer, ⟨sampleRate, channels, positive, some session⟩)

/-- A number of samples, zeros if there is no session. -/
def fill (sink : OfflineSink) (samples : Nat) : List Float32 × OfflineSink :=
  let (block, sink) := sink.withSession (·.process samples)
  (block.getD (List.replicate samples 0.0), sink)

/-- A number of whole frames. -/
def block (sink : OfflineSink) (frames : Nat) : List Float32 × OfflineSink :=
  sink.fill (frames * sink.channels)

@[simp] theorem length_fill (sink : OfflineSink) (samples : Nat) :
    (sink.fill samples).1.length = samples := by
  obtain ⟨sampleRate, channels, positive, session⟩ := sink
  cases session <;> simp [fill, withSession]

@[simp] theorem channels_fill (sink : OfflineSink) (samples : Nat) :
    (sink.fill samples).2.channels = sink.channels := by
  obtain ⟨sampleRate, channels, positive, session⟩ := sink
  cases session <;> rfl

end OfflineSink

end ToneGraph
