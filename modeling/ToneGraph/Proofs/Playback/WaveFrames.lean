import ToneGraph.Proofs.Playback.Blocks
import ToneGraph.Proofs.Playback.RefusedRun
/-!
# The frames of a wave

A recording has a sink, a voice and a header, and each of them has a number of channels.  The header
takes the number of the settings as it is.  The sink and the voice take at least one.  So the
samples are those of whole frames, but of frames with at least one channel, and the header says the
same as long as the settings do not ask for none.

A recording exists whenever its source compiles: the session is new, so nothing has to be stopped,
and there is room for its only command.

## Main statements

* `Session.start_run`: what a new session answers to its first run.
* `OfflineSink.Opened.frames_of_block`: a block of an open sink has the same sample on all channels
  of a frame.
* `Wave.header_channels`: what the bytes of a wave say of its channels.
* `recorded_frames`: the samples of a recording, frame by frame, against its header.
-/

namespace ToneGraph

open Synth

/-! ## The first run of a session -/

/-- A new session plays the source it is asked for, unless the source is rejected. -/
theorem Session.start_run (sampleRate : UInt32) (channels : Nat) (settings : Settings)
    (source : String) :
    ((Session.start sampleRate channels settings).run source).1 =
      ((compile ⟨.ofNat sampleRate.toNat, settings.seed, settings.maxDelaySeconds⟩ source).map
        fun _ => ()).mapError .rejected := by
  let s := Session.start sampleRate channels settings
  have hsettings : s.reclaim.2.control.settings =
      ⟨.ofNat sampleRate.toNat, settings.seed, settings.maxDelaySeconds⟩ := rfl
  have hstop : s.stop = (.ok (), s.reclaim.2) := rfl
  rw [← hsettings, run, hstop]
  dsimp only
  cases hcompile : compile s.reclaim.2.control.settings source with
  | error why =>
      rw [build_of_compile_error hcompile]
      rfl
  | ok g =>
      rw [build_of_compile hcompile]
      dsimp only
      rcases launch_record { s.reclaim.2 with control := { s.reclaim.2.control with
          state := .building
          lastError := none
          generation := s.reclaim.2.control.generation + 1 } }
          (g.numbered (s.reclaim.2.control.generation + 1)) with ⟨hfull, -⟩ | hsent
      · -- The queue is empty and not of length zero.
        have hlength : 0 = max settings.commandCapacity.toNat 2 := send?_eq_none_iff.1 hfull
        omega
      · rw [hsent]
        rfl

/-! ## Frames -/

/-- The samples of a block of an open sink, one for each frame, which all channels have. -/
theorem OfflineSink.Opened.frames_of_block {sink : OfflineSink} (h : sink.Opened) (frames : Nat) :
    ∃ sounds : List Float32, sounds.length = frames ∧
      (sink.block frames).1 = sounds.flatMap (List.replicate sink.channels) := by
  obtain ⟨s, hsession, hchannels⟩ := h.exists_session
  rw [OfflineSink.block_of_session hsession, ← hchannels]
  by_cases hnone : s.drain.voice.graph.isNone
  · refine ⟨List.replicate frames 0.0, List.length_replicate, ?_⟩
    rw [Session.process_of_isNone hnone, List.flatMap_replicate, List.flatten_replicate_replicate]
  · refine ⟨(s.drain.voice.play (frames * s.drain.voice.channels)).1, ?_, ?_⟩
    · rw [Voice.length_play (by simpa [Option.isSome_iff_ne_none] using hnone)]
      exact Voice.framesFor_mul s.drain.voice.channels_pos frames
    · rw [Session.process_of_not_isNone hnone]

/-! ## Waves -/

/-- The bytes of a wave say how many channels the wave says it has. -/
theorem Wave.header_channels (w : Wave) :
    (w.encode.drop 22).take 2 = littleEndian 2 w.channels.toNat := by
  have hriff : asciiBytes "RIFF" = [0x52, 0x49, 0x46, 0x46] := by decide
  have hwave : asciiBytes "WAVE" = [0x57, 0x41, 0x56, 0x45] := by decide
  have hfmt : asciiBytes "fmt " = [0x66, 0x6d, 0x74, 0x20] := by decide
  rw [encode, hriff, hwave, hfmt, format]
  split <;> rfl

/-- A sample is cut to a whole number after it has been given to the channels. -/
theorem map_wholeSample_flatMap (sounds : List Float32) (channels : Nat) :
    (sounds.flatMap (List.replicate channels)).map wholeSample =
      (sounds.map wholeSample).flatMap (List.replicate channels) := by
  rw [List.map_flatMap, List.flatMap_map]
  simp only [List.map_replicate]

/-- Frames of at least one channel are as many samples as frames of the given number of channels,
unless there is a frame and it has no channel. -/
theorem mul_max_one_eq_iff (frames : Nat) (channels : UInt16) :
    frames * max channels.toNat 1 = frames * channels.toNat ↔ channels ≠ 0 ∨ frames = 0 := by
  have hmax : max channels.toNat 1 = channels.toNat ↔ channels ≠ 0 := by
    rw [Ne, ← UInt16.toNat_inj, UInt16.toNat_zero]
    omega
  rw [mul_eq_mul_left_iff, hmax]

/-- A recording is made of the source if it compiles, one sample for each frame, which is given to
one channel at least. -/
theorem recordSource_eq (settings : Settings) (sampleRate : UInt32) (seconds : Float)
    (source : String) :
    let channels := settings.channels.getD 1
    ∃ sounds : List Int16, sounds.length = frameCount seconds sampleRate ∧
      recordSource settings sampleRate seconds source =
        ((compile ⟨.ofNat sampleRate.toNat, settings.seed, settings.maxDelaySeconds⟩ source).map
          fun _ => (⟨sampleRate, channels,
            (sounds.flatMap (List.replicate (max channels.toNat 1))).toArray⟩ : Wave)).mapError
        .rejected := by
  intro channels
  have hopened := OfflineSink.opened_run sampleRate channels.toNat settings source
  obtain ⟨sounds, hlength, hblock⟩ := hopened.frames_of_block (frameCount seconds sampleRate)
  refine ⟨sounds.map wholeSample, (List.length_map _).trans hlength, ?_⟩
  rw [recordSource_eq_block, hblock, Session.start_run, List.map_toArray, map_wholeSample_flatMap]
  cases compile ⟨.ofNat sampleRate.toNat, settings.seed, settings.maxDelaySeconds⟩ source with
  | error why => rfl
  | ok g => rfl

/-- **The frames of a recording.**  A source that compiles is recorded, whatever the settings are.
The wave has as many frames as fit in its time, and the samples of a frame are all the same.  Its
header says how many channels the settings ask for; a frame has so many samples, but one at least.
So the number of samples is the one that follows from the header, unless the settings ask for no
channels and there is a frame. -/
theorem recorded_frames (settings : Settings) (sampleRate : UInt32) (seconds : Float)
    (source : String) :
    let frames := frameCount seconds sampleRate
    let recording := recordSource settings sampleRate seconds source
    ((∃ wave, recording = .ok wave) ↔ ∃ g, compile
      ⟨.ofNat sampleRate.toNat, settings.seed, settings.maxDelaySeconds⟩ source = .ok g) ∧
    ∀ wave, recording = .ok wave →
      wave.channels = settings.channels.getD 1 ∧
      (wave.encode.drop 22).take 2 = littleEndian 2 wave.channels.toNat ∧
      (∃ sounds : List Int16, sounds.length = frames ∧
        wave.samples.toList = sounds.flatMap (List.replicate (max wave.channels.toNat 1))) ∧
      (wave.samples.size = frames * wave.channels.toNat ↔ wave.channels ≠ 0 ∨ frames = 0) := by
  intro frames recording
  obtain ⟨sounds, hlength, hrecording⟩ := recordSource_eq settings sampleRate seconds source
  have hrecording : recording = _ := hrecording
  rw [hrecording]
  cases compile ⟨.ofNat sampleRate.toNat, settings.seed, settings.maxDelaySeconds⟩ source with
  | error why => exact ⟨⟨nofun, nofun⟩, nofun⟩
  | ok g =>
      refine ⟨⟨fun _ => ⟨g, rfl⟩, fun _ => ⟨_, rfl⟩⟩, ?_⟩
      rintro wave ⟨⟩
      refine ⟨rfl, Wave.header_channels _, ⟨sounds, hlength, rfl⟩, ?_⟩
      rw [List.size_toArray, Voice.length_flatMap_replicate, hlength]
      exact mul_max_one_eq_iff frames _

/-- Two frames on two channels. -/
theorem four_samples_on_two_channels :
    ∃ wave, recordSource { Settings.default with channels := some 2 } 1000 0.002 "1" = .ok wave ∧
      frameCount 0.002 1000 = 2 ∧ wave.channels = 2 ∧ wave.samples.size = 4 := by
  have htwo : frameCount 0.002 1000 = 2 := by decide +kernel
  let settings : Settings := { Settings.default with channels := some 2 }
  let build : BuildSettings :=
    ⟨.ofNat (1000 : UInt32).toNat, settings.seed, settings.maxDelaySeconds⟩
  obtain ⟨g, hg⟩ := Moment.compile_one build (if_pos (by decide))
  obtain ⟨hexists, hwaves⟩ := recorded_frames settings 1000 0.002 "1"
  obtain ⟨wave, hwave⟩ := hexists.2 ⟨g, hg⟩
  obtain ⟨hchannels, -, -, hsize⟩ := hwaves wave hwave
  have hchannels : wave.channels = 2 := hchannels
  rw [hchannels, htwo] at hsize
  exact ⟨wave, hwave, htwo, hchannels, hsize.2 (.inl (by decide))⟩

/-- Two frames on no channels: the header makes no samples of them, and there are two. -/
theorem two_samples_on_no_channels :
    ∃ wave, recordSource { Settings.default with channels := some 0 } 1000 0.002 "1" = .ok wave ∧
      frameCount 0.002 1000 = 2 ∧ wave.channels = 0 ∧ wave.samples.size = 2 := by
  have htwo : frameCount 0.002 1000 = 2 := by decide +kernel
  let settings : Settings := { Settings.default with channels := some 0 }
  let build : BuildSettings :=
    ⟨.ofNat (1000 : UInt32).toNat, settings.seed, settings.maxDelaySeconds⟩
  obtain ⟨g, hg⟩ := Moment.compile_one build (if_pos (by decide))
  obtain ⟨sounds, hlength, hrecording⟩ := recordSource_eq settings 1000 0.002 "1"
  rw [hg] at hrecording
  refine ⟨_, hrecording, htwo, rfl, ?_⟩
  rw [List.size_toArray, Voice.length_flatMap_replicate, hlength, htwo]
  rfl

end ToneGraph
