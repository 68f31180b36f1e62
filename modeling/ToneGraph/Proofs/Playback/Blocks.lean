import Mathlib
import ToneGraph.CommandLine.Program
import ToneGraph.Proofs.Playback.Continuity
/-!
# Blocks of any size

Nothing of a block depends on where it ends.  Commands are obeyed when a block begins, so the second
of two blocks in a row finds none; a graph goes on rendering where it stopped; and the scope takes
the samples of the frames one after the other, whatever block they belong to.  So two blocks are as
good as one of both lengths together, and only the total counts.

The frames of a block are whole: a sink and its voice agree on the number of channels.

## Main definitions

* `OfflineSink.blocks`: blocks of some sizes, one after the other.
* `OfflineSink.Opened`: a sink with a session, whatever has happened to the session.

## Main statements

* `OfflineSink.block_add`: two blocks in a row are one block.
* `OfflineSink.exists_blocks_eq_recordOnto`: a recording asks for blocks that have the right length
  together.
* `OfflineSink.splitting_is_invisible`: how a number of frames is split into blocks changes neither
  the samples nor what is left of the session, and so a file does not depend on the size of blocks.
-/

namespace ToneGraph

open Synth

/-! ## Frames -/

namespace Voice

theorem framesFor_mul {channels : Nat} (hpos : 0 < channels) (frames : Nat) :
    framesFor channels (frames * channels) = frames := by
  have hlast : (channels - 1) / channels = 0 := Nat.div_eq_of_lt (by omega)
  rw [framesFor, Nat.add_sub_assoc hpos, Nat.add_comm, Nat.add_mul_div_right _ _ hpos, hlast,
    Nat.zero_add]

/-- Whole frames are not cut. -/
theorem interleave_whole {channels samples : Nat} {frames : List Float32}
    (h : samples = frames.length * channels) :
    interleave channels samples frames = frames.flatMap (List.replicate channels) := by
  have hlength := length_interleave channels samples frames
  rw [h, Nat.min_self] at hlength
  rw [interleave, h]
  apply List.take_of_length_le
  simp

/-- A voice goes on playing where it stopped. -/
theorem play_add (v : Voice) (a b : Nat) :
    (v.play ((a + b) * v.channels)).1 =
        (v.play (a * v.channels)).1 ++ ((v.play (a * v.channels)).2.play (b * v.channels)).1 ∧
      (v.play ((a + b) * v.channels)).2 =
        ((v.play (a * v.channels)).2.play (b * v.channels)).2 := by
  obtain ⟨graph, volume, limiter, channels, hpos⟩ := v
  cases graph with
  | none => exact ⟨rfl, rfl⟩
  | some g =>
      simp only [play, framesFor_mul hpos]
      obtain ⟨hsamples, hgraph⟩ := g.render_add a b
      exact ⟨by rw [hsamples, List.map_append], by rw [hgraph]⟩

theorem channels_play (v : Voice) (samples : Nat) : (v.play samples).2.channels = v.channels :=
  congrArg Prod.snd (setup_play v samples)

theorem isNone_play (v : Voice) (samples : Nat) :
    (v.play samples).2.graph.isNone = v.graph.isNone := by
  rw [graph_play, Option.isNone_map]

end Voice

/-! ## Two blocks in a row -/

namespace Session

/-- A session whose voice has played some frames. -/
def played (s : Session) (frames : List Float32) (voice : Voice) : Session :=
  { s with
    link := { s.link with
      scope := s.link.scope.map fun queue => frames.foldl BoundedQueue.offer queue }
    voice }

theorem played_played (s : Session) (first second : List Float32) (v w : Voice) :
    (s.played first v).played second w = s.played (first ++ second) w := by
  rw [played, played, played, Option.map_map]
  simp only [List.foldl_append]
  rfl

/-- A block without a graph is silent. -/
theorem process_of_isNone {s : Session} (h : s.drain.voice.graph.isNone) (samples : Nat) :
    s.process samples = (List.replicate samples 0.0, s.drain) :=
  if_pos h

/-- A block with a graph plays, and the last frame may be cut. -/
theorem process_playing {s : Session} (h : ¬ s.drain.voice.graph.isNone) (samples : Nat) :
    let next := s.drain.voice.play samples
    s.process samples =
      (Voice.interleave s.drain.voice.channels samples next.1, s.drain.played next.1 next.2) :=
  if_neg h

/-- A block of whole frames, as many as asked for, of which each channel has every sample. -/
theorem process_of_not_isNone {s : Session} (h : ¬ s.drain.voice.graph.isNone) (frames : Nat) :
    let v := s.drain.voice
    let next := v.play (frames * v.channels)
    s.process (frames * v.channels) =
      (next.1.flatMap (List.replicate v.channels), s.drain.played next.1 next.2) := by
  intro v next
  have hlength : next.1.length = frames := by
    rw [Voice.length_play (by simpa [Option.isSome_iff_ne_none] using h)]
    exact Voice.framesFor_mul v.channels_pos frames
  rw [process_playing h, Voice.interleave_whole]
  rw [hlength]

/-- After a block there is nothing to obey. -/
theorem drain_process (s : Session) (samples : Nat) :
    (s.process samples).2.drain = (s.process samples).2 := by
  by_cases h : s.drain.voice.graph.isNone
  · rw [process_of_isNone h]
    rfl
  · rw [process_playing h]
    rfl

/-- A block goes on where the block before has ended. -/
theorem process_add (s : Session) (a b : Nat) :
    let c := s.drain.voice.channels
    let first := s.process (a * c)
    let second := first.2.process (b * c)
    s.process ((a + b) * c) = (first.1 ++ second.1, second.2) := by
  intro c first second
  have hdrain : first.2.drain = first.2 := s.drain_process (a * c)
  by_cases hnone : s.drain.voice.graph.isNone
  · have hfirst : first = (List.replicate (a * c) 0.0, s.drain) := process_of_isNone hnone _
    have hsecond : second = (List.replicate (b * c) 0.0, s.drain) := by
      dsimp only [second]
      rw [hfirst]
      exact process_of_isNone hnone _
    rw [hfirst, hsecond, process_of_isNone hnone, Nat.add_mul, List.replicate_add]
  · let v := s.drain.voice
    let w := (v.play (a * c)).2
    have hfirst : first = ((v.play (a * c)).1.flatMap (List.replicate c),
        s.drain.played (v.play (a * c)).1 w) := process_of_not_isNone hnone a
    have hvoice : first.2.drain.voice = w := by
      rw [hdrain, hfirst]
      rfl
    have hchannels : first.2.drain.voice.channels = c := by
      rw [hvoice]
      exact v.channels_play (a * c)
    have hplaying : ¬ first.2.drain.voice.graph.isNone := by
      rw [hvoice, Voice.isNone_play]
      exact hnone
    have hsecond : second = ((w.play (b * c)).1.flatMap (List.replicate c),
        first.2.played (w.play (b * c)).1 (w.play (b * c)).2) := by
      have hprocess := process_of_not_isNone hplaying b
      dsimp only at hprocess
      rwa [hchannels, hvoice, hdrain] at hprocess
    obtain ⟨hsamples, hlast⟩ := v.play_add a b
    rw [hsecond, process_of_not_isNone hnone, hsamples, hlast, hfirst, played_played,
      List.flatMap_append]

end Session

/-! ## Blocks of a sink -/

namespace OfflineSink

/-- The samples of some blocks, one after the other, and the sink after them. -/
def blocks (sink : OfflineSink) : List Nat → List Float32 × OfflineSink
  | [] => ([], sink)
  | frames :: rest =>
    let (samples, sink) := sink.block frames
    let (more, sink) := sink.blocks rest
    (samples ++ more, sink)

/-- A session has been started for the sink, whatever has happened to the session since. -/
def Opened (sink : OfflineSink) : Prop :=
  ∃ settings actions, sink.session =
    some ((Moment.start sink.sampleRate sink.channels settings).after actions).session

/-- A sink in which a session takes the place of the one that was there. -/
def withNew (sink : OfflineSink) (s : Session) : OfflineSink :=
  { sink with session := some s }

theorem block_of_session {sink : OfflineSink} {s : Session} (h : sink.session = some s)
    (frames : Nat) :
    sink.block frames = ((s.process (frames * sink.channels)).1,
      sink.withNew (s.process (frames * sink.channels)).2) := by
  obtain ⟨sampleRate, channels, hpos, session⟩ := sink
  obtain rfl : session = some s := h
  rfl

/-- The voice of an open sink has as many channels as the sink. -/
theorem Opened.exists_session {sink : OfflineSink} (h : sink.Opened) :
    ∃ s, sink.session = some s ∧ s.drain.voice.channels = sink.channels := by
  obtain ⟨settings, actions, hsession⟩ := h
  refine ⟨_, hsession, ?_⟩
  have hsetup := Moment.setup_drain (.start sink.sampleRate sink.channels settings) actions
  have hchannels := congrArg Prod.snd hsetup
  exact hchannels.trans (Nat.max_eq_left sink.channels_pos)

/-- A sink whose session has been asked to run a source is open. -/
theorem opened_run (sampleRate : UInt32) (channels : Nat) (settings : Settings) (source : String) :
    ((closed sampleRate channels).withNew
      ((Session.start sampleRate (max channels 1) settings).run source).2).Opened := by
  refine ⟨settings, [.run source, .proceed, .proceed, .proceed], ?_⟩
  rw [Moment.start, Moment.after_run]
  rfl

theorem Opened.block {sink : OfflineSink} (h : sink.Opened) (frames : Nat) :
    (sink.block frames).2.Opened := by
  obtain ⟨settings, actions, hsession⟩ := h
  refine ⟨settings, actions ++ [.block (frames * sink.channels)], ?_⟩
  rw [block_of_session hsession, Moment.after_concat]
  rfl

/-- Two blocks in a row are one block of both lengths. -/
theorem block_add {sink : OfflineSink} (h : sink.Opened) (a b : Nat) :
    sink.block (a + b) =
      ((sink.block a).1 ++ ((sink.block a).2.block b).1, ((sink.block a).2.block b).2) := by
  obtain ⟨s, hsession, hchannels⟩ := h.exists_session
  have hadd := s.process_add a b
  rw [hchannels] at hadd
  have hsecond : (sink.withNew (s.process (a * sink.channels)).2).block b = _ :=
    block_of_session rfl b
  rw [block_of_session hsession, block_of_session hsession, hsecond, hadd]
  rfl

/-- Blocks in a row are one block of their total length. -/
theorem blocks_eq_block {sink : OfflineSink} (h : sink.Opened) {sizes : List Nat}
    (hsizes : sizes ≠ []) : sink.blocks sizes = sink.block sizes.sum := by
  induction sizes generalizing sink with
  | nil => exact absurd rfl hsizes
  | cons frames rest ih =>
      by_cases hrest : rest = []
      · rw [hrest]
        show ((sink.block frames).1 ++ [], (sink.block frames).2) = _
        rw [List.append_nil]
        rfl
      · rw [List.sum_cons, block_add h, ← ih (h.block frames) hrest]
        rfl

/-! ## Recordings -/

/-- A recording asks for blocks no longer than it may, and ends when they have the right length
together. -/
theorem exists_blocks_eq_recordOnto (block : Nat) (hpos : 0 < block) (out : Array Float32)
    (frames : Nat) (sink : OfflineSink) :
    ∃ sizes, sizes.sum = frames ∧ (∀ n ∈ sizes, 0 < n ∧ n ≤ block) ∧
      sink.recordOnto block hpos out frames =
        (out ++ (sink.blocks sizes).1, (sink.blocks sizes).2) := by
  induction frames using Nat.strongRecOn generalizing out sink with
  | ind frames ih =>
      rw [recordOnto]
      by_cases hframes : frames = 0
      · rw [if_pos hframes]
        refine ⟨[], hframes.symm, nofun, ?_⟩
        simp [blocks]
      · rw [if_neg hframes]
        obtain ⟨sizes, hsum, hbound, hrecord⟩ := ih (frames - min block frames) (by omega)
          (out ++ (sink.block (min block frames)).1) (sink.block (min block frames)).2
        refine ⟨min block frames :: sizes, ?_, ?_, ?_⟩
        · rw [List.sum_cons, hsum]
          omega
        · intro n hn
          rcases List.mem_cons.1 hn with rfl | hlater
          · omega
          · exact hbound n hlater
        · dsimp only
          rw [hrecord, blocks]
          exact congrArg (·, _) (Array.toList_inj.1 (by simp))

theorem exists_blocks_eq_record (sink : OfflineSink) (settings : Settings) (frames : Nat) :
    ∃ sizes, sizes.sum = frames ∧
      (∀ n ∈ sizes, 0 < n ∧ n ≤ max settings.blockSize.toNat 1) ∧
      sink.record settings frames = (sink.blocks sizes).1.toArray := by
  obtain ⟨sizes, hsum, hbound, hrecord⟩ := sink.exists_blocks_eq_recordOnto
    (max settings.blockSize.toNat 1) (max_one_pos _) #[] frames
  refine ⟨sizes, hsum, hbound, ?_⟩
  rw [record, hrecord]
  exact Array.toList_inj.1 (by simp)

/-- A recording of an open sink has the samples of a single block. -/
theorem record_eq_block {sink : OfflineSink} (h : sink.Opened) (settings : Settings)
    (frames : Nat) : sink.record settings frames = (sink.block frames).1.toArray := by
  obtain ⟨sizes, hsum, _, hrecord⟩ := sink.exists_blocks_eq_record settings frames
  rw [hrecord]
  cases sizes with
  | nil =>
      -- A block of no frames is not asked for, and has no samples.
      obtain rfl : 0 = frames := hsum
      have hlength : (sink.block 0).1.length = 0 := by
        rw [block, length_fill, Nat.zero_mul]
      rw [List.length_eq_zero_iff.1 hlength]
      rfl
  | cons n rest => rw [blocks_eq_block h (List.cons_ne_nil n rest), hsum]

end OfflineSink

/-- A recording is one block of a session that has just been asked to run the source. -/
theorem recordSource_eq_block (settings : Settings) (sampleRate : UInt32) (seconds : Float)
    (source : String) :
    let channels := settings.channels.getD 1
    let asked := (Session.start sampleRate (max channels.toNat 1) settings).run source
    let sink := (OfflineSink.closed sampleRate channels.toNat).withNew asked.2
    recordSource settings sampleRate seconds source = asked.1.map fun _ =>
      ⟨sampleRate, channels,
        (sink.block (frameCount seconds sampleRate)).1.toArray.map wholeSample⟩ := by
  intro channels asked sink
  have hopened : sink.Opened := OfflineSink.opened_run sampleRate channels.toNat settings source
  rw [← OfflineSink.record_eq_block hopened settings]
  show (asked.1 >>= fun _ => _) = _
  cases asked.1 with
  | error why => rfl
  | ok _ => rfl

/-- How long a block may be does not matter to what is recorded. -/
theorem recordSource_blockSize (settings : Settings) (blockSize : UInt64) (sampleRate : UInt32)
    (seconds : Float) (source : String) :
    recordSource { settings with blockSize } sampleRate seconds source =
      recordSource settings sampleRate seconds source := by
  rw [recordSource_eq_block, recordSource_eq_block]
  rfl

open CommandLine in
theorem renderTo_blockSize [Monad m] (system : System m) (settings : Settings)
    (blockSize : UInt64) (source out : String) (seconds : Float) (sampleRate : UInt32) :
    renderTo system { settings with blockSize } source out seconds sampleRate =
      renderTo system settings source out seconds sampleRate := by
  rw [renderTo, renderTo, recordSource_blockSize]

/-! ## Splitting -/

open CommandLine in
/-- **Splitting is invisible.**  Blocks of an open sink give the same samples, and leave its session
in the same state, however their total is split among them.  A recording asks for blocks whose total
is its length, so a file does not depend on how long a block may be. -/
theorem OfflineSink.splitting_is_invisible {sink : OfflineSink} (h : sink.Opened) :
    (∀ sizes sizes' : List Nat, sizes ≠ [] → sizes' ≠ [] → sizes.sum = sizes'.sum →
      sink.blocks sizes = sink.blocks sizes') ∧
    (∀ (settings : Settings) (frames : Nat),
      (sink.record settings frames).size = frames * sink.channels ∧
      ∃ sizes, sizes.sum = frames ∧
        (∀ n ∈ sizes, 0 < n ∧ n ≤ max settings.blockSize.toNat 1) ∧
        sink.record settings frames = (sink.blocks sizes).1.toArray) ∧
    ∀ {m : Type → Type} [Monad m] (system : System m) (settings : Settings) (blockSize : UInt64)
      (source out : String) (seconds : Float) (sampleRate : UInt32),
      renderTo system { settings with blockSize } source out seconds sampleRate =
        renderTo system settings source out seconds sampleRate := by
  refine ⟨?_, ?_, ?_⟩
  · intro sizes sizes' hsizes hsizes' hsum
    rw [blocks_eq_block h hsizes, blocks_eq_block h hsizes', hsum]
  · intro settings frames
    refine ⟨?_, sink.exists_blocks_eq_record settings frames⟩
    rw [record_eq_block h, List.size_toArray, block, length_fill]
  · intro m _ system settings blockSize source out seconds sampleRate
    exact renderTo_blockSize system settings blockSize source out seconds sampleRate

/-- Three frames of a sine on two channels, of which the first or the last may come alone. -/
theorem OfflineSink.sine_in_two_splittings :
    let playing := (Moment.start 44100 2 .default).after
      [.run "sine(440)", .proceed, .proceed, .proceed]
    let sink := (closed 44100 2).withNew playing.session
    sink.Opened ∧ sink.blocks [1, 0, 2] = sink.blocks [2, 1] := by
  intro playing sink
  have hopened : sink.Opened := ⟨.default, [.run "sine(440)", .proceed, .proceed, .proceed], rfl⟩
  exact ⟨hopened, (splitting_is_invisible hopened).1 [1, 0, 2] [2, 1] nofun nofun rfl⟩

end ToneGraph
