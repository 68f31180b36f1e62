import ToneGraph.Proofs.Playback.Interleaving
/-!
# The control side agrees with the audio side

The control side keeps its own record of what plays and how loud.  The record is ahead of the audio
side by the commands that still wait: it describes the voice as it will be once it has obeyed them.

What can be heard of a voice is the generation of its graph and its volume.  Commands act on that
alone, a block changes nothing of what will be heard, and sending a command lets it act on what will
be heard.  So the invariant needs only one clause for each phase of a request.

## Main definitions

* `Heard`: the generation that plays, if any, and the volume.
* `Session.heard`: what will be heard once no command waits.
* `Moment.Agrees`: the invariant, phase by phase.

## Main statements

* `Moment.Agrees.act`: every action keeps the invariant.
* `Moment.control_agrees_with_voice`: between requests the record of the control side is what the
  voice will be.
-/

namespace ToneGraph

open Synth

/-! ## Volumes -/

/-- Of two bounds in order, a value is forced to the one that it passes. -/
theorem clamp32_eq {low high : Float32} (h : ¬ high < low) (x : Float32) :
    clamp32 low high x = if x < low then low else if high < x then high else x := by
  unfold clamp32
  by_cases hlow : x < low
  · simp only [if_pos hlow, if_neg h]
  · simp only [if_neg hlow]

/-- A volume is forced to one of the bounds or left as it is, then no less than zero and no more
than one or no number. -/
theorem clamp32_cases (x : Float32) :
    clamp32 0.0 1.0 x = 0.0 ∨ clamp32 0.0 1.0 x = 1.0 ∨
      clamp32 0.0 1.0 x = x ∧ ¬ x < 0.0 ∧ ¬ 1.0 < x := by
  rw [clamp32_eq (by decide)]
  by_cases hlow : x < 0.0
  · exact .inl (if_pos hlow)
  · right
    rw [if_neg hlow]
    by_cases hhigh : 1.0 < x
    · exact .inl (if_pos hhigh)
    · exact .inr ⟨if_neg hhigh, hlow, hhigh⟩

theorem clamp32_clamp32 (x : Float32) :
    clamp32 0.0 1.0 (clamp32 0.0 1.0 x) = clamp32 0.0 1.0 x := by
  rcases clamp32_cases x with h | h | ⟨h, -, -⟩
  · rw [h]
    rfl
  · rw [h]
    rfl
  · rw [h, h]

/-- A volume that is forced into range stays there. -/
theorem volumeShare_volumeShare (x : Float32) : volumeShare (volumeShare x) = volumeShare x := by
  by_cases hnan : x.isNaN
  · have hzero : volumeShare x = 0.0 := if_pos hnan
    rw [hzero]
    rfl
  · have hshare : volumeShare x = clamp32 0.0 1.0 x := if_neg hnan
    have hnumber : ¬ (clamp32 0.0 1.0 x).isNaN := by
      rcases clamp32_cases x with h | h | ⟨h, -, -⟩
      · rw [h]
        decide
      · rw [h]
        decide
      · rwa [h]
    rw [hshare]
    exact (if_neg hnumber).trans (clamp32_clamp32 x)

/-! ## What is heard -/

/-- What can be heard of a voice: which graph it plays, if any, and how loud. -/
structure Heard where
  generation? : Option Nat
  volume : Float32

/-- What a command makes of what is heard. -/
def Heard.obey (h : Heard) : Command → Heard
  | .play g => { h with generation? := some g.generation }
  | .stop => { h with generation? := none }
  | .setVolume x => { h with volume := volumeShare x }

/-- What is heard of a voice. -/
def Voice.heard (v : Voice) : Heard :=
  ⟨v.generation?, v.volume⟩

theorem Voice.volume_retire (v : Voice) (retired : BoundedQueue Graph) :
    (v.retire retired).1.volume = v.volume := by
  unfold retire
  split <;> rfl

theorem Voice.heard_obey (v : Voice) (retired : BoundedQueue Graph) (c : Command) :
    (obey (v, retired) c).1.heard = v.heard.obey c := by
  cases c with
  | play g =>
      show Heard.mk (some g.generation) (v.retire retired).1.volume = _
      rw [volume_retire]
      rfl
  | stop =>
      show Heard.mk (v.retire retired).1.generation? (v.retire retired).1.volume = _
      rw [volume_retire, generation?, graph_retire]
      rfl
  | setVolume x => rfl

theorem Voice.heard_foldl_obey (commands : List Command) (v : Voice)
    (retired : BoundedQueue Graph) :
    (commands.foldl obey (v, retired)).1.heard = commands.foldl Heard.obey v.heard := by
  induction commands generalizing v retired with
  | nil => rfl
  | cons c rest ih =>
      rw [List.foldl_cons, List.foldl_cons, ← heard_obey v retired c]
      exact ih _ _

theorem Graph.generation_renderOnto (out : Array Float) (n : Nat) (g : Graph) :
    (renderOnto out n g).2.generation = g.generation := by
  induction n generalizing out g with
  | zero => rfl
  | succ n ih =>
      rw [renderOnto, ih]
      rfl

/-- Playing changes nothing of what is heard. -/
theorem Voice.heard_play (v : Voice) (samples : Nat) : (v.play samples).2.heard = v.heard := by
  obtain ⟨graph, volume, limiter, channels, hpos⟩ := v
  cases graph with
  | none => rfl
  | some g =>
      have hgeneration := Graph.generation_renderOnto #[] (framesFor channels samples) g
      show Heard.mk (some (g.render (framesFor channels samples)).2.generation) volume =
        Heard.mk (some g.generation) volume
      rw [Graph.render, hgeneration]

namespace Session

/-- What will be heard once the voice has obeyed all commands that wait. -/
def heard (s : Session) : Heard :=
  s.drain.voice.heard

theorem heard_eq (s : Session) :
    s.heard = s.link.commands.toList.foldl Heard.obey s.voice.heard :=
  Voice.heard_foldl_obey s.link.commands.toList s.voice s.link.retired

/-- What will be heard depends on the voice and on the commands that wait. -/
theorem heard_congr {s t : Session} (hcommands : t.link.commands = s.link.commands)
    (hvoice : t.voice = s.voice) : t.heard = s.heard := by
  rw [heard_eq, heard_eq, hcommands, hvoice]

/-- A command that is sent will be obeyed after those that wait. -/
theorem heard_send? {s t : Session} {c : Command} (h : s.send? c = some t) :
    t.heard = s.heard.obey c ∧ t.control = s.control := by
  obtain ⟨commands, hpush, rfl⟩ := Option.map_eq_some_iff.1 h
  refine ⟨?_, rfl⟩
  rw [heard_eq, heard_eq, BoundedQueue.toList_of_push? hpush, List.foldl_append]
  rfl

/-- A block changes nothing of what will be heard, and nothing of the record. -/
theorem heard_process (s : Session) (samples : Nat) :
    (s.process samples).2.heard = s.heard ∧ (s.process samples).2.control = s.control := by
  have hnone : s.drain.link.commands.toList = [] := commands_drain s
  have hcontrol : s.drain.control = s.control := rfl
  unfold process
  rw [heard_eq, heard, ← hcontrol]
  split
  next control commands retired scope voice hdrain =>
    rw [hdrain] at hnone ⊢
    split
    · exact ⟨congrArg (List.foldl Heard.obey voice.heard) hnone, rfl⟩
    · refine ⟨?_, rfl⟩
      show commands.toList.foldl Heard.obey (voice.play samples).2.heard = voice.heard
      rw [show commands.toList = [] from hnone, Voice.heard_play]
      rfl

/-! ## Steps of the control side -/

/-- The record says that nothing plays, and nothing will. -/
structure Silent (s : Session) : Prop where
  state : s.control.state = .idle
  heard : s.heard.generation? = none

/-- The record says that the graph built last plays, and it will. -/
structure Sounds (s : Session) : Prop where
  state : s.control.state = .playing
  heard : s.heard.generation? = some s.control.generation

/-- The record has the volume that will be heard. -/
def Level (s : Session) : Prop :=
  s.heard.volume = s.control.volume

/-- Asking to stop is refused and changes nothing, or nothing will be heard. -/
theorem halt_cases {s : Session} (hs : s.Silent ∨ s.Sounds) (hlevel : s.Level) :
    (∃ why, s.halt = (.error why, s)) ∨ ∃ t, s.halt = (.ok (), t) ∧ t.Silent ∧ t.Level := by
  unfold halt
  by_cases hstate : s.control.state = .playing
  · rw [if_pos hstate]
    split
    · next sent hsent =>
        obtain ⟨hheard, hcontrol⟩ := heard_send? hsent
        have hsame : (sent.enter .idle).heard = s.heard.obey .stop :=
          (heard_congr rfl rfl).trans hheard
        refine .inr ⟨sent.enter .idle, rfl, ⟨rfl, ?_⟩, ?_⟩
        · rw [hsame]
          rfl
        · show (sent.enter .idle).heard.volume = sent.control.volume
          rw [hsame, hcontrol]
          exact hlevel
    · exact .inl ⟨.queueFull, rfl⟩
  · rw [if_neg hstate]
    rcases hs with hs | hs
    · exact .inr ⟨s, rfl, hs, hlevel⟩
    · exact absurd hs.state hstate

theorem build_ok {s t : Session} {source : String} {g : Graph} (h : s.build source = (.ok g, t)) :
    t.heard = s.heard ∧ t.control.volume = s.control.volume ∧
      g.generation = t.control.generation := by
  unfold build at h
  dsimp only at h
  split at h
  · cases h
  · cases h
    exact ⟨heard_congr rfl rfl, rfl, rfl⟩

theorem build_error {s t : Session} {source : String} {why : Rejection}
    (h : s.build source = (.error why, t)) :
    t.heard = s.heard ∧ t.control.volume = s.control.volume ∧ t.control.state = .idle := by
  unfold build at h
  dsimp only at h
  split at h
  · cases h
    exact ⟨heard_congr rfl rfl, rfl, rfl⟩
  · cases h

/-- Asking to play a graph, when nothing will be heard. -/
theorem launch_spec {s : Session} {g : Graph} (hsilent : s.heard.generation? = none)
    (hgeneration : g.generation = s.control.generation) (hlevel : s.Level) :
    ((s.launch g).2.Silent ∨ (s.launch g).2.Sounds) ∧ (s.launch g).2.Level := by
  unfold launch
  split
  · next sent hsent =>
      obtain ⟨hheard, hcontrol⟩ := heard_send? hsent
      have hsame : (sent.enter .playing).heard = s.heard.obey (.play g) :=
        (heard_congr rfl rfl).trans hheard
      refine ⟨.inr ⟨rfl, ?_⟩, ?_⟩
      · show (sent.enter .playing).heard.generation? = some sent.control.generation
        rw [hsame, hcontrol, ← hgeneration]
        rfl
      · show (sent.enter .playing).heard.volume = sent.control.volume
        rw [hsame, hcontrol]
        exact hlevel
  · have hsame : (s.enter .idle).heard = s.heard := heard_congr rfl rfl
    refine ⟨.inl ⟨rfl, ?_⟩, ?_⟩
    · rw [hsame]
      exact hsilent
    · show (s.enter .idle).heard.volume = s.control.volume
      rw [hsame]
      exact hlevel

theorem setVolume_spec {s : Session} (hs : s.Silent ∨ s.Sounds) (hlevel : s.Level)
    (volume : Float32) :
    ((s.setVolume volume).2.Silent ∨ (s.setVolume volume).2.Sounds) ∧
      (s.setVolume volume).2.Level := by
  unfold setVolume
  dsimp only
  split
  · next sent hsent =>
      obtain ⟨hheard, hcontrol⟩ := heard_send? hsent
      have hsame : ∀ control, { sent with control }.heard =
          s.heard.obey (.setVolume (volumeShare volume)) :=
        fun control => (heard_congr rfl rfl).trans hheard
      refine ⟨?_, ?_⟩
      · rcases hs with hs | hs
        · refine .inl ⟨?_, ?_⟩
          · show sent.control.state = .idle
            rw [hcontrol, hs.state]
          · rw [hsame]
            exact hs.heard
        · refine .inr ⟨?_, ?_⟩
          · show sent.control.state = .playing
            rw [hcontrol, hs.state]
          · show _ = some sent.control.generation
            rw [hsame, hcontrol]
            exact hs.heard
      · rw [Level, hsame]
        exact volumeShare_volumeShare volume
  · exact ⟨hs, hlevel⟩

end Session

/-! ## The invariant -/

namespace Moment

/-- In every phase the record has the volume that will be heard.  Between requests, and until a
request has asked for silence, it also says what will play; then nothing will, until a graph is
launched that bears the number of the record. -/
def Agrees (m : Moment) : Prop :=
  m.session.Level ∧
    match m.phase with
    | .ready | .stopping | .replacing _ => m.session.Silent ∨ m.session.Sounds
    | .silenced _ => m.session.Silent
    | .built g =>
      m.session.heard.generation? = none ∧ g.generation = m.session.control.generation

/-- What is heard and what the record says of it decide whether they agree. -/
theorem Agrees.of_same {s t : Session} {phase : Phase} (h : Agrees ⟨s, phase⟩)
    (hheard : t.heard = s.heard) (hstate : t.control.state = s.control.state)
    (hgeneration : t.control.generation = s.control.generation)
    (hvolume : t.control.volume = s.control.volume) : Agrees ⟨t, phase⟩ := by
  obtain ⟨hlevel, hphase⟩ := h
  have hsilent : s.Silent → t.Silent :=
    fun hs => ⟨hstate.trans hs.state, hheard ▸ hs.heard⟩
  have hsounds : s.Sounds → t.Sounds :=
    fun hs => ⟨hstate.trans hs.state, by rw [hheard, hgeneration, hs.heard]⟩
  refine ⟨?_, ?_⟩
  · show t.heard.volume = t.control.volume
    rw [hheard, hvolume]
    exact hlevel
  · cases phase with
    | ready | stopping | replacing => exact hphase.imp hsilent hsounds
    | silenced => exact hsilent hphase
    | built g =>
        refine ⟨?_, ?_⟩
        · rw [hheard]
          exact hphase.1
        · rw [hgeneration]
          exact hphase.2

/-- The next step of a request keeps the invariant, wherever the request leaves. -/
theorem Agrees.proceed {m : Moment} (h : m.Agrees) : m.proceed.Agrees := by
  obtain ⟨s, phase⟩ := m
  obtain ⟨hlevel, hphase⟩ := h
  cases phase with
  | ready => exact ⟨hlevel, hphase⟩
  | stopping =>
      rw [Moment.proceed]
      rcases Session.halt_cases hphase hlevel with ⟨why, hhalt⟩ | ⟨t, hhalt, hsilent, hlevel⟩
      · rw [hhalt]
        exact ⟨hlevel, hphase⟩
      · rw [hhalt]
        exact ⟨hlevel, .inl hsilent⟩
  | replacing source =>
      rw [Moment.proceed]
      rcases Session.halt_cases hphase hlevel with ⟨why, hhalt⟩ | ⟨t, hhalt, hsilent, hlevel⟩
      · rw [hhalt]
        exact ⟨hlevel, hphase⟩
      · rw [hhalt]
        exact ⟨hlevel, hsilent⟩
  | silenced source =>
      rw [Moment.proceed]
      cases hbuild : s.build source with
      | mk result t =>
          cases result with
          | error why =>
              obtain ⟨hheard, hvolume, hidle⟩ := Session.build_error hbuild
              refine ⟨?_, .inl ⟨hidle, ?_⟩⟩
              · show t.heard.volume = t.control.volume
                rw [hheard, hvolume]
                exact hlevel
              · rw [hheard]
                exact hphase.heard
          | ok g =>
              obtain ⟨hheard, hvolume, hgeneration⟩ := Session.build_ok hbuild
              refine ⟨?_, ?_, hgeneration⟩
              · show t.heard.volume = t.control.volume
                rw [hheard, hvolume]
                exact hlevel
              · rw [hheard]
                exact hphase.heard
  | built g =>
      obtain ⟨hlaunched, hlevel⟩ := Session.launch_spec hphase.1 hphase.2 hlevel
      exact ⟨hlevel, hlaunched⟩

/-- Every action keeps the invariant. -/
theorem Agrees.act {m : Moment} (h : m.Agrees) (action : Action) : (m.act action).Agrees := by
  obtain ⟨s, phase⟩ := m
  cases action with
  | block samples =>
      obtain ⟨hheard, hcontrol⟩ := Session.heard_process s samples
      exact h.of_same hheard (congrArg _ hcontrol) (congrArg _ hcontrol) (congrArg _ hcontrol)
  | readScope count =>
      show Agrees ⟨(s.readScope count).2, phase⟩
      unfold Session.readScope
      split
      · exact h
      · exact h.of_same (Session.heard_congr rfl rfl) rfl rfl rfl
  | proceed => cases phase <;> exact h.proceed
  | setVolume volume =>
      cases phase with
      | ready =>
          obtain ⟨hs, hlevel⟩ := Session.setVolume_spec h.2 h.1 volume
          exact ⟨hlevel, hs⟩
      | _ => exact h
  | reclaim | takeScope | setSeed =>
      cases phase with
      | ready => exact h.of_same (Session.heard_congr rfl rfl) rfl rfl rfl
      | _ => exact h
  | stop | run =>
      have hreclaim : Agrees ⟨s.reclaim.2, phase⟩ :=
        h.of_same (Session.heard_congr rfl rfl) rfl rfl rfl
      cases phase with
      | ready => exact hreclaim
      | _ => exact h

theorem agrees_start (sampleRate : UInt32) (channels : Nat) (settings : Settings) :
    (start sampleRate channels settings).Agrees :=
  ⟨clamp32_clamp32 settings.masterVolume, .inl ⟨rfl, rfl⟩⟩

/-- Between requests, after any requests and any blocks, the record of the control side is what the
voice will be once it has obeyed the commands that wait: the state is playing or idle, a graph that
plays is the one numbered last, and the volumes are the same. -/
theorem control_agrees_with_voice (sampleRate : UInt32) (channels : Nat) (settings : Settings)
    (actions : List Action)
    (hready : ((start sampleRate channels settings).after actions).phase = .ready) :
    let s := ((start sampleRate channels settings).after actions).session
    let voice := s.drain.voice
    (s.control.state = .playing ∧ voice.generation? = some s.control.generation ∨
      s.control.state = .idle ∧ voice.generation? = none) ∧
      voice.volume = s.control.volume := by
  intro s voice
  obtain ⟨hlevel, hphase⟩ := after_induction (agrees_start sampleRate channels settings)
    (fun _ action h => h.act action) actions
  rw [hready] at hphase
  refine ⟨?_, hlevel⟩
  rcases hphase with hs | hs
  · exact .inr ⟨hs.state, hs.heard⟩
  · exact .inl ⟨hs.state, hs.heard⟩

/-- A run between two blocks. -/
theorem control_agrees_after_run :
    let s := ((start 48000 2 .default).after
      [.block 8, .run "sine(440)", .proceed, .proceed, .proceed, .block 8]).session
    let voice := s.drain.voice
    (s.control.state = .playing ∧ voice.generation? = some s.control.generation ∨
      s.control.state = .idle ∧ voice.generation? = none) ∧
      voice.volume = s.control.volume := by
  refine control_agrees_with_voice 48000 2 .default _ ?_
  show (after (after ⟨((start 48000 2 .default).act (.block 8)).session, .ready⟩
    [.run "sine(440)", .proceed, .proceed, .proceed]) [.block 8]).phase = .ready
  rw [after_run]
  rfl

end Moment

end ToneGraph
