import ToneGraph.Proofs.Playback.History
import ToneGraph.Proofs.Synth.Magnitude
/-!
# What is in force

A seed is in force from the request that sets it to the request that sets another, and so is a
volume.  Both are read off the history: the requests that set something are noted, and the last of
them decides, or the settings of the session if there is none.

A seed is set at once.  A volume is set if there is room for a command, and it reaches the voice
with the next block, which obeys all commands that wait; so every block from then on plays under the
last volume that was set.  What it plays is up to the commands as well.  The ceiling is that of the
settings, once for all.

## Main definitions

* `Moment.seeds`, `Moment.volumes`: what requests have set.
* `volumeInForce`, `ceilingInForce`: how loud a sample may be.
* `playing`: which graph plays after a command.
* `Voice.written`: a value of a graph under a ceiling and a volume.

## Main statements

* `Moment.chosen_act`: what an action sets, and that no other action sets anything.
* `Moment.settings_after`: graphs are built with the seed that was set last.
* `Moment.volume_drain`: a block plays under the volume that was set last.
* `Moment.generation?_drain`: a block plays the graph that the last command to play brings, unless
  a stop comes after it.
* `Voice.level_ofCeiling`: what the limiter and the volume make of a value.
-/

namespace ToneGraph

open Synth

/-- After more items, the last is that of the later ones, if there are any. -/
theorem getLast?_getD_append {α : Type} (first : α) (xs ys : List α) :
    (xs ++ ys).getLast?.getD first = ys.getLast?.getD (xs.getLast?.getD first) := by
  rw [List.getLast?_append, Option.getD_or]

/-! ## Steps that set nothing -/

/-- What a user has set: how graphs are built, and the volume. -/
def Control.chosen (c : Control) : BuildSettings × Float32 :=
  (c.settings, c.volume)

namespace Session

variable (s : Session)

theorem chosen_halt : s.halt.2.control.chosen = s.control.chosen := by
  rcases s.halt_effect with hsame | ⟨-, -, hcontrol⟩
  · rw [hsame]
  · rw [hcontrol]
    rfl

theorem chosen_build (source : String) :
    (s.build source).2.control.chosen = s.control.chosen := by
  unfold build
  dsimp only
  split <;> rfl

theorem chosen_launch (g : Graph) : (s.launch g).2.control.chosen = s.control.chosen := by
  unfold launch
  split
  · next sent hsent =>
      obtain ⟨-, hcontrol⟩ := sent_of_send? hsent
      show sent.control.chosen = s.control.chosen
      rw [hcontrol]
  · rfl

/-- A volume is set if there is room for a command. -/
theorem chosen_setVolume (volume : Float32) :
    (s.setVolume volume).2.control.chosen = (s.control.settings,
      if s.link.commands.toList.length < s.link.commands.capacity then volumeShare volume
      else s.control.volume) := by
  have hle := s.link.commands.length_toList_le
  unfold setVolume
  dsimp only
  split
  · next sent hsent =>
      have hroom : s.link.commands.toList.length < s.link.commands.capacity := by
        have hne := mt send?_eq_none_iff.2 (Option.ne_none_iff_exists'.2 ⟨sent, hsent⟩)
        omega
      obtain ⟨-, hcontrol⟩ := sent_of_send? hsent
      show (sent.control.settings, volumeShare volume) = _
      rw [if_pos hroom, hcontrol]
  · next hfull =>
      have hroom := send?_eq_none_iff.1 hfull
      rw [if_neg (by omega)]
      rfl

end Session

namespace Moment

theorem chosen_proceed (m : Moment) :
    m.proceed.session.control.chosen = m.session.control.chosen := by
  obtain ⟨s, phase⟩ := m
  cases phase with
  | ready => rfl
  | stopping => exact s.chosen_halt
  | replacing source =>
      have hhalt := s.chosen_halt
      rcases act_replacing s source with hact | hact
      · rw [show proceed ⟨s, .replacing source⟩ = _ from hact]
        exact hhalt
      · rw [show proceed ⟨s, .replacing source⟩ = _ from hact]
        exact hhalt
  | silenced source =>
      have hbuild := s.chosen_build source
      rw [proceed]
      cases hresult : s.build source with
      | mk result t =>
          rw [hresult] at hbuild
          cases result <;> exact hbuild
  | built g => exact s.chosen_launch g

/-! ## Requests that set something -/

/-- The seed that a request sets. -/
def seeds : Moment → Action → List UInt64
  | ⟨_, .ready⟩, .setSeed seed => [seed]
  | _, _ => []

/-- The volume that a request sets, for which it takes room for a command. -/
def volumes : Moment → Action → List Float32
  | ⟨s, .ready⟩, .setVolume volume =>
    if s.link.commands.toList.length < s.link.commands.capacity then [volume] else []
  | _, _ => []

/-- An action sets what its request asks for, and nothing else. -/
theorem chosen_act (m : Moment) (action : Action) :
    let c := m.session.control
    (m.act action).session.control.chosen =
      ({ c.settings with seed := (seeds m action).getLast?.getD c.settings.seed },
        ((volumes m action).map volumeShare).getLast?.getD c.volume) := by
  obtain ⟨s, phase⟩ := m
  cases action with
  | block samples =>
      obtain ⟨hcontrol, -⟩ := s.process_effect samples
      have hchosen := congrArg Control.chosen hcontrol
      cases phase <;> exact hchosen
  | readScope count =>
      have hchosen := congrArg Control.chosen (s.control_readScope count)
      cases phase <;> exact hchosen
  | proceed =>
      have hchosen := chosen_proceed ⟨s, phase⟩
      cases phase <;> exact hchosen
  | setVolume volume =>
      cases phase with
      | ready =>
          refine (s.chosen_setVolume volume).trans ?_
          rw [volumes]
          split <;> rfl
      | _ => rfl
  | setSeed | takeScope | reclaim | stop | run => cases phase <;> rfl

variable (m : Moment) (actions : List Action)

theorem chosen_after :
    let c := m.session.control
    (m.after actions).session.control.chosen =
      ({ c.settings with seed := (gather seeds m actions).getLast?.getD c.settings.seed },
        ((gather volumes m actions).map volumeShare).getLast?.getD c.volume) := by
  refine history_induction (P := fun past now => now.session.control.chosen =
    ({ m.session.control.settings with
        seed := (gather seeds m past).getLast?.getD m.session.control.settings.seed },
      ((gather volumes m past).map volumeShare).getLast?.getD m.session.control.volume))
    rfl ?_ actions
  intro past action ih
  have hsettings := congrArg Prod.fst ih
  have hvolume := congrArg Prod.snd ih
  dsimp only [Control.chosen] at hsettings hvolume
  rw [chosen_act, gather_concat, gather_concat, List.map_append, getLast?_getD_append,
    getLast?_getD_append, hsettings, hvolume]

/-- Graphs are built with the seed that was set last. -/
theorem settings_after :
    let settings := m.session.control.settings
    (m.after actions).session.control.settings =
      { settings with seed := (gather seeds m actions).getLast?.getD settings.seed } :=
  congrArg Prod.fst (chosen_after m actions)

end Moment

/-! ## The volume of a block -/

/-- The volume in force after some have been set: the last of them, or the one that a session begins
with, between zero and one.  A volume that is set and is no number counts as zero. -/
def volumeInForce (first : Float32) (later : List Float32) : Float32 :=
  match later.getLast? with
  | none => if first < 0.0 then 0.0 else if 1.0 < first then 1.0 else first
  | some v => if v.isNaN then 0.0 else if v < 0.0 then 0.0 else if 1.0 < v then 1.0 else v

theorem volumeInForce_eq (first : Float32) (later : List Float32) :
    volumeInForce first later =
      (later.map volumeShare).getLast?.getD (clamp32 0.0 1.0 first) := by
  rw [volumeInForce, List.getLast?_map]
  cases later.getLast? with
  | none => exact (clamp32_eq (by decide) first).symm
  | some v =>
      show _ = if v.isNaN then 0.0 else clamp32 0.0 1.0 v
      rw [clamp32_eq (by decide)]

namespace Moment

/-- A block plays under the volume that was set last. -/
theorem volume_drain (sampleRate : UInt32) (channels : Nat) (settings : Settings)
    (actions : List Action) :
    let m := start sampleRate channels settings
    (m.after actions).session.drain.voice.volume =
      volumeInForce settings.masterVolume (gather volumes m actions) := by
  intro m
  obtain ⟨hlevel, -⟩ := after_induction (agrees_start sampleRate channels settings)
    (fun _ action h => h.act action) actions
  have hrecord := congrArg Prod.snd (chosen_after m actions)
  rw [volumeInForce_eq]
  exact hlevel.trans hrecord

end Moment

/-! ## The graph of a block -/

/-- The number of the graph that plays after one command more. -/
def playing (k : Option Nat) : Command → Option Nat
  | .play g => some g.generation
  | .stop => none
  | .setVolume _ => k

theorem Heard.generation?_foldl_obey (commands : List Command) (h : Heard) :
    (commands.foldl obey h).generation? = commands.foldl playing h.generation? := by
  induction commands generalizing h with
  | nil => rfl
  | cons c rest ih =>
      rw [List.foldl_cons, List.foldl_cons, ih]
      cases c <;> rfl

namespace Moment

variable (m : Moment)

/-- Nothing is heard after a block but what was heard in it. -/
theorem heard_block (samples : Nat) :
    (m.act (.block samples)).session.voice.heard = m.session.heard := by
  obtain ⟨-, -, -, hvoice⟩ := m.session.process_effect samples
  rw [session_block, hvoice]
  exact Voice.heard_play _ samples

/-- The commands that blocks have obeyed decide which graph plays. -/
theorem generation?_after (hsilent : m.session.voice.graph = none) (actions : List Action) :
    (m.after actions).session.voice.generation? = (gather obeyed m actions).foldl playing none := by
  refine history_induction (P := fun past now =>
    now.session.voice.generation? = (gather obeyed m past).foldl playing none) ?_ ?_ actions
  · rw [Voice.generation?, hsilent]
    rfl
  · intro past action ih
    rw [gather_concat, List.foldl_append, ← ih]
    rcases act_effect (m.after past) action with ⟨samples, rfl⟩ | hpassed
    · have hheard := congrArg Heard.generation? (heard_block (m.after past) samples)
      rw [Session.heard_eq, Heard.generation?_foldl_obey] at hheard
      exact hheard
    · rw [hpassed.voice, hpassed.obeyed]
      rfl

/-- In a block the commands that it has obeyed count too. -/
theorem generation?_drain (hsilent : m.session.voice.graph = none) (past : List Action)
    (samples : Nat) :
    (m.after past).session.drain.voice.generation? =
      (gather obeyed m (past ++ [.block samples])).foldl playing none := by
  rw [← generation?_after m hsilent, after_concat]
  exact (congrArg Heard.generation? (heard_block (m.after past) samples)).symm

end Moment

/-! ## What is written -/

/-- The ceiling in force: that of the settings, if it is above zero and at most one, else one. -/
def ceilingInForce (ceiling : Float32) : Float32 :=
  if 0.0 < ceiling ∧ ceiling ≤ 1.0 then ceiling else 1.0

namespace Synth.Limiter

theorem ofCeiling_eq (c : Float32) : ofCeiling c = ⟨ceilingInForce c⟩ := by
  unfold ofCeiling ceilingInForce
  by_cases h : 0.0 < c ∧ c ≤ 1.0
  · rw [if_pos h, if_pos (by simpa using h)]
  · rw [if_neg h, if_neg (by simpa using h)]
    rfl

end Synth.Limiter

theorem ceilingInForce_pos (c : Float32) : 0.0 < ceilingInForce c := by
  unfold ceilingInForce
  split
  · next h => exact h.1
  · decide

/-- A ceiling is not below its negative, so the two bounds of the limiter are in order. -/
theorem not_lt_neg {ceiling : Float32} (h : 0.0 < ceiling) : ¬ ceiling < -ceiling := by
  have hnumber := (isNaN_eq_false_of_lt h).2
  have hneg : (-ceiling).isNaN = false := by rw [isNaN_neg, hnumber]
  have hrank : rank 0.0 < rank ceiling := (lt_iff_rank_lt (by decide) hnumber).1 h
  rw [lt_iff_rank_lt hnumber hneg, rank_neg]
  rw [rank_zero] at hrank
  omega

namespace Voice

/-- A value of a graph as it is written: as a 32-bit number, silence for what is none, no lower than
minus the ceiling and no higher than the ceiling, times the volume. -/
def written (ceiling volume : Float32) (x : Float) : Float32 :=
  let y := Number.narrow x
  let limited :=
    if y.isNaN then 0.0 else if y < -ceiling then -ceiling else if ceiling < y then ceiling else y
  limited * volume

/-- What the limiter and the volume make of a value is what is written. -/
theorem level_ofCeiling (c : Float32) :
    level (.ofCeiling c) = written (ceilingInForce c) := by
  funext volume x
  rw [level, Limiter.limit, Limiter.ofCeiling_eq, clamp32_eq (not_lt_neg (ceilingInForce_pos c))]
  rfl

end Voice

end ToneGraph
