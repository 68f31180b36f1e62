import ToneGraph.Proofs.Playback.Continuity
import ToneGraph.Proofs.Synth.Magnitude
/-!
# The guard in front of the output

A sample is limited, then multiplied by the volume.  What the limiter passes is a number no larger
than its ceiling, and a volume between zero and one does not make it larger.

So all depends on the volume.  A command that sets it leaves a volume between zero and one, whatever
it was asked for.  The volume that a session begins with is only forced between the bounds, which
leaves what is no number as it is: under such a volume every sample of a graph is no number, until
the first command that sets the volume is obeyed.

## Main definitions

* `Synth.IsShare`: a volume between zero and one.

## Main statements

* `Voice.level_within_ceiling`: the guard, for one sample and such a volume.
* `Moment.volume_after`: the volume is the one at first or was set by a command.
* `Moment.samples_within_ceiling`: when the samples of a block pass the guard, and when they do not.
-/

namespace ToneGraph

namespace Synth

/-! ## Volumes and ceilings -/

/-- A number that is forced between two bounds lies between them. -/
theorem clamp32_between {low high x : Float32} (hlow : low.isNaN = false)
    (hhigh : high.isNaN = false) (hx : x.isNaN = false) (hle : rank low ≤ rank high) :
    (clamp32 low high x).isNaN = false ∧ rank low ≤ rank (clamp32 low high x) ∧
      rank (clamp32 low high x) ≤ rank high := by
  let y := if x < low then low else x
  have hy : y.isNaN = false ∧ rank low ≤ rank y := by
    by_cases hlt : x < low
    · rw [show y = low from if_pos hlt]
      exact ⟨hlow, Int.le_refl _⟩
    · rw [show y = x from if_neg hlt]
      rw [lt_iff_rank_lt hx hlow] at hlt
      exact ⟨hx, Int.not_lt.1 hlt⟩
  by_cases hgt : high < y
  · rw [show clamp32 low high x = high from if_pos hgt]
    exact ⟨hhigh, hle, Int.le_refl _⟩
  · rw [show clamp32 low high x = y from if_neg hgt]
    rw [lt_iff_rank_lt hhigh hy.1] at hgt
    exact ⟨hy.1, hy.2, Int.not_lt.1 hgt⟩

/-- Forcing between bounds does not make a number of what is none. -/
theorem clamp32_of_isNaN {x : Float32} (hx : x.isNaN = true) : clamp32 0.0 1.0 x = x := by
  have hlow : ¬ x < 0.0 := fun h => by
    rw [(isNaN_eq_false_of_lt h).1] at hx
    contradiction
  have hhigh : ¬ 1.0 < x := fun h => by
    rw [(isNaN_eq_false_of_lt h).2] at hx
    contradiction
  rw [clamp32_eq (by decide), if_neg hlow, if_neg hhigh]

/-- A number between zero and one. -/
structure IsShare (v : Float32) : Prop where
  number : v.isNaN = false
  nonneg : 0 ≤ rank v
  le_one : rank v ≤ rank 1.0

theorem isShare_clamp32 {x : Float32} (hx : x.isNaN = false) : IsShare (clamp32 0.0 1.0 x) := by
  have hzero : (0.0 : Float32).isNaN = false := by decide
  have hone : (1.0 : Float32).isNaN = false := by decide
  have hle : rank 0.0 ≤ rank 1.0 := by decide
  obtain ⟨hnumber, hlow, hhigh⟩ := clamp32_between hzero hone hx hle
  rw [rank_zero] at hlow
  exact ⟨hnumber, hlow, hhigh⟩

theorem isShare_volumeShare (x : Float32) : IsShare (volumeShare x) := by
  by_cases hnan : x.isNaN
  · rw [show volumeShare x = 0.0 from if_pos hnan]
    exact ⟨by decide, by decide, by decide⟩
  · rw [show volumeShare x = clamp32 0.0 1.0 x from if_neg hnan]
    exact isShare_clamp32 (Bool.eq_false_iff.2 hnan)

namespace Limiter

/-- A ceiling is above zero and at most one. -/
theorem ceiling_ofCeiling (c : Float32) :
    (ofCeiling c).ceiling.isNaN = false ∧ 0 < rank (ofCeiling c).ceiling ∧
      rank (ofCeiling c).ceiling ≤ rank 1.0 := by
  unfold ofCeiling
  split
  · next h =>
      obtain ⟨hlow, hhigh⟩ := Bool.and_eq_true_iff.1 h
      have hlow : 0.0 < c := of_decide_eq_true hlow
      have hnumber := (isNaN_eq_false_of_lt hlow).2
      rw [lt_iff_rank_lt (by decide) hnumber, rank_zero] at hlow
      exact ⟨hnumber, hlow, (le_iff_rank_le hnumber (by decide)).1 (of_decide_eq_true hhigh)⟩
  · exact ⟨by decide, by decide, by decide⟩

/-- What is limited is a number no larger than the ceiling. -/
theorem limit_le {l : Limiter} (hnumber : l.ceiling.isNaN = false) (hpos : 0 < rank l.ceiling)
    (x : Float32) : (l.limit x).isNaN = false ∧ rank (l.limit x).abs ≤ rank l.ceiling := by
  by_cases hnan : x.isNaN
  · rw [show l.limit x = 0.0 from if_pos hnan]
    exact ⟨by decide, Int.le_of_lt hpos⟩
  · have hx : x.isNaN = false := Bool.eq_false_iff.2 hnan
    have hneg : (-l.ceiling).isNaN = false := by rw [isNaN_neg, hnumber]
    have hrank := rank_neg l.ceiling
    have hle : rank (-l.ceiling) ≤ rank l.ceiling := by omega
    obtain ⟨hlimited, hlow, hhigh⟩ := clamp32_between hneg hnumber hx hle
    rw [show l.limit x = clamp32 (-l.ceiling) l.ceiling x from if_neg hnan, rank_abs]
    exact ⟨hlimited, by omega⟩

end Limiter

end Synth

open Synth

/-! ## One sample -/

namespace Voice

/-- A sample under a volume between zero and one is a number no larger than the ceiling. -/
theorem level_within_ceiling {v : Float32} (hv : IsShare v) (c : Float32) (x : Float) :
    (level (.ofCeiling c) v x).isNaN = false ∧
      (level (.ofCeiling c) v x).abs ≤ (Limiter.ofCeiling c).ceiling := by
  obtain ⟨hnumber, hpos, hone⟩ := Limiter.ceiling_ofCeiling c
  obtain ⟨hlimited, hle⟩ := Limiter.limit_le hnumber hpos (Number.narrow x)
  obtain ⟨hsample, hsmaller⟩ :=
    abs_mul_le hlimited (Int.le_trans hle hone) hv.number hv.nonneg hv.le_one
  refine ⟨hsample, ?_⟩
  have habs : ((Limiter.ofCeiling c).limit (Number.narrow x) * v).abs.isNaN = false := by
    rw [isNaN_abs, hsample]
  exact (le_iff_rank_le habs hnumber).2 (Int.le_trans hsmaller hle)

/-- A sample under a volume that is no number is no number. -/
theorem isNaN_level (limiter : Limiter) {v : Float32} (hv : v.isNaN = true) (x : Float) :
    (level limiter v x).isNaN = true :=
  isNaN_mul _ hv

theorem mem_of_mem_interleave {channels samples : Nat} {frames : List Float32} {x : Float32}
    (h : x ∈ interleave channels samples frames) : x ∈ frames := by
  obtain ⟨frame, hframe, hx⟩ := List.mem_flatMap.1 (List.mem_of_mem_take h)
  rwa [List.eq_of_mem_replicate hx]

end Voice

/-! ## The volume -/

/-- Whether some of the commands set the volume. -/
def SetsVolume (commands : List Command) : Prop :=
  ∃ x, .setVolume x ∈ commands

theorem setsVolume_append {us vs : List Command} :
    SetsVolume (us ++ vs) ↔ SetsVolume us ∨ SetsVolume vs := by
  simp only [SetsVolume, List.mem_append, exists_or]

/-- The volume after some commands is the one before them, or one of them has set it. -/
theorem Voice.volume_foldl_obey (commands : List Command) (v : Voice)
    (retired : BoundedQueue Graph) :
    let last := (commands.foldl obey (v, retired)).1
    ¬ SetsVolume commands ∧ last.volume = v.volume ∨
      SetsVolume commands ∧ IsShare last.volume := by
  induction commands generalizing v retired with
  | nil => exact .inl ⟨nofun, rfl⟩
  | cons c rest ih =>
      rw [List.foldl_cons]
      rcases ih (obey (v, retired) c).1 (obey (v, retired) c).2 with
        ⟨hnone, hsame⟩ | ⟨⟨x, hx⟩, hshare⟩
      · cases c with
        | play | stop =>
            refine .inl ⟨?_, hsame.trans (volume_retire v retired)⟩
            rintro ⟨x, hx⟩
            rcases List.mem_cons.1 hx with heq | hrest
            · contradiction
            · exact hnone ⟨x, hrest⟩
        | setVolume x =>
            have hset : (obey (v, retired) (.setVolume x)).1.volume = volumeShare x := rfl
            refine .inr ⟨⟨x, List.mem_cons_self⟩, ?_⟩
            rw [hsame, hset]
            exact isShare_volumeShare x
      · exact .inr ⟨⟨x, List.mem_cons_of_mem _ hx⟩, hshare⟩

namespace Moment

theorem volume_block (m : Moment) (samples : Nat) :
    (m.act (.block samples)).session.voice.volume = m.session.drain.voice.volume :=
  congrArg Heard.volume (heard_block m samples)

/-- The volume of a voice is the one at first, or a command has set it. -/
theorem volume_after (m : Moment) (actions : List Action) :
    ¬ SetsVolume (gather obeyed m actions) ∧
        (m.after actions).session.voice.volume = m.session.voice.volume ∨
      SetsVolume (gather obeyed m actions) ∧ IsShare (m.after actions).session.voice.volume := by
  refine history_induction (P := fun past now =>
    ¬ SetsVolume (gather obeyed m past) ∧
        now.session.voice.volume = m.session.voice.volume ∨
      SetsVolume (gather obeyed m past) ∧ IsShare now.session.voice.volume) ?_ ?_ actions
  · exact .inl ⟨nofun, rfl⟩
  · intro past action ih
    rw [gather_concat]
    rcases act_effect (m.after past) action with ⟨samples, rfl⟩ | hpassed
    · have hdrain := Voice.volume_foldl_obey (m.after past).session.link.commands.toList
        (m.after past).session.voice (m.after past).session.link.retired
      rw [obeyed_block, volume_block, setsVolume_append]
      rcases hdrain with ⟨hnone, hsame⟩ | ⟨hset, hshare⟩
      · rcases ih with ⟨hnever, hfirst⟩ | ⟨honce, hshare⟩
        · exact .inl ⟨not_or_intro hnever hnone, hsame.trans hfirst⟩
        · exact .inr ⟨.inl honce, hsame ▸ hshare⟩
      · exact .inr ⟨.inr hset, hshare⟩
    · rw [hpassed.obeyed, hpassed.voice, List.append_nil]
      exact ih

/-! ## Blocks -/

/-- A sample of a block is a zero of a silent block or a value of the graph that plays, as loud as
the limiter and the volume let it be. -/
theorem mem_process {m : Moment} {actions : List Action} {samples : Nat} {x : Float32}
    (h : x ∈ ((m.after actions).session.process samples).1) :
    let voice := (m.after actions).session.drain.voice
    voice.graph = none ∧ x = 0.0 ∨
      voice.graph ≠ none ∧ ∃ y, x = Voice.level m.session.voice.limiter voice.volume y := by
  intro voice
  cases hlive : voice.graph with
  | none =>
      rw [Session.process_fst_of_none hlive] at h
      exact .inl ⟨rfl, List.eq_of_mem_replicate h⟩
  | some g =>
      rw [Session.process_fst_of_some hlive] at h
      have hframe := Voice.mem_of_mem_interleave h
      rw [Voice.play_fst] at hframe
      obtain ⟨y, -, rfl⟩ := List.mem_map.1 hframe
      have hlimiter : voice.limiter = m.session.voice.limiter :=
        congrArg Prod.fst (setup_drain m actions)
      refine .inr ⟨nofun, y, ?_⟩
      rw [← hlimiter]

/-- The samples of a block that follows some actions.  They are numbers no larger than the ceiling,
which is at most one, if the volume that the session began with is a number, or if some command has
set the volume by then.  Otherwise no sample of a graph is a number. -/
theorem samples_within_ceiling (sampleRate : UInt32) (channels : Nat) (settings : Settings)
    (actions : List Action) (samples : Nat) :
    let m := start sampleRate channels settings
    let s := (m.after actions).session
    let block := (s.process samples).1
    let ceiling := (Limiter.ofCeiling settings.ceiling).ceiling
    let isSet := SetsVolume (gather obeyed m (actions ++ [.block samples]))
    ceiling ≤ 1.0 ∧
      (settings.masterVolume.isNaN = false ∨ isSet →
        ∀ x ∈ block, x.isNaN = false ∧ x.abs ≤ ceiling) ∧
      (settings.masterVolume.isNaN = true → ¬ isSet → s.drain.voice.graph ≠ none →
        ∀ x ∈ block, x.isNaN = true) := by
  intro m s block ceiling isSet
  obtain ⟨hnumber, hpos, hone⟩ := Limiter.ceiling_ofCeiling settings.ceiling
  have hfirst : m.session.voice.volume = clamp32 0.0 1.0 settings.masterVolume :=
    clamp32_clamp32 settings.masterVolume
  have hvolume := volume_after m (actions ++ [.block samples])
  rw [after_concat, volume_block, hfirst] at hvolume
  refine ⟨(le_iff_rank_le hnumber (by decide)).2 hone, ?_, ?_⟩
  · intro hgood x hx
    have hshare : IsShare s.drain.voice.volume := by
      rcases hvolume with ⟨hnever, hsame⟩ | ⟨-, hshare⟩
      · have hmaster := hgood.resolve_right hnever
        rw [hsame]
        exact isShare_clamp32 hmaster
      · exact hshare
    rcases mem_process hx with ⟨-, rfl⟩ | ⟨-, y, rfl⟩
    · refine ⟨by decide, (le_iff_rank_le (by decide) hnumber).2 ?_⟩
      exact Int.le_of_lt hpos
    · exact Voice.level_within_ceiling hshare settings.ceiling y
  · intro hnan hnever hlive x hx
    have hsame : s.drain.voice.volume = settings.masterVolume := by
      rcases hvolume with ⟨-, hsame⟩ | ⟨hset, -⟩
      · exact hsame.trans (clamp32_of_isNaN hnan)
      · exact absurd hset hnever
    rcases mem_process hx with ⟨hnone, -⟩ | ⟨-, y, rfl⟩
    · exact absurd hnone hlive
    · refine Voice.isNaN_level _ ?_ y
      show s.drain.voice.volume.isNaN = true
      rw [hsame]
      exact hnan

/-- The first block after a first run passes the guard under the volume of the defaults, and fails
it under a volume that is no number. -/
theorem first_block_by_first_volume :
    let run : List Action := [.run "1", .proceed, .proceed, .proceed]
    let nan := { Settings.default with masterVolume := 0.0 / 0.0 }
    (∀ x ∈ (((start 1000 1 .default).after run).session.process 2).1,
        x.isNaN = false ∧ x.abs ≤ (Limiter.ofCeiling 1.0).ceiling) ∧
      ∀ x ∈ (((start 1000 1 nan).after run).session.process 2).1, x.isNaN = true := by
  intro run nan
  obtain ⟨-, hgood, -⟩ := samples_within_ceiling 1000 1 .default run 2
  obtain ⟨-, -, hbad⟩ := samples_within_ceiling 1000 1 nan run 2
  obtain ⟨g, -, hbuilt⟩ := start_run_one 1000 1 nan (if_pos (by decide))
  have hrun : (start 1000 1 nan).after run =
      ((start 1000 1 nan).after [.run "1", .proceed, .proceed]).after [.proceed] := rfl
  have hobeyed : gather obeyed (start 1000 1 nan) (run ++ [.block 2]) = [.play (g.numbered 1)] := by
    rw [gather_append, hrun, hbuilt]
    rfl
  refine ⟨hgood (.inl (by decide)), hbad (by decide) ?_ ?_⟩
  · rw [hobeyed]
    rintro ⟨x, hx⟩
    exact absurd (List.mem_singleton.1 hx) nofun
  · rw [hrun, hbuilt]
    nofun

/-- A session that begins with a volume that is no number plays what is no number. -/
theorem nan_volume_passes_guard :
    let settings := { Settings.default with masterVolume := 0.0 / 0.0 }
    let s := ((start 1000 1 settings).after [.run "1", .proceed, .proceed, .proceed]).session
    (s.process 2).1.length = 2 ∧ ∀ x ∈ (s.process 2).1, x.isNaN = true := by
  intro settings s
  refine ⟨s.length_process 2, ?_⟩
  intro x hx
  obtain ⟨g, -, hbuilt⟩ := start_run_one 1000 1 settings (if_pos (by decide))
  have hs : s = (((start 1000 1 settings).after
      [.run "1", .proceed, .proceed]).after [.proceed]).session := rfl
  have hlive : s.drain.voice.graph = some (g.numbered 1) := by
    rw [hs, hbuilt]
    rfl
  have hvolume : s.drain.voice.volume = (start 1000 1 settings).session.voice.volume := by
    rw [hs, hbuilt]
    rfl
  have hnan : (start 1000 1 settings).session.voice.volume.isNaN = true := by decide
  rcases mem_process hx with ⟨hnone, -⟩ | ⟨-, y, rfl⟩
  · exact absurd (hlive.symm.trans hnone) nofun
  · refine Voice.isNaN_level _ ?_ y
    show s.drain.voice.volume.isNaN = true
    rw [hvolume]
    exact hnan

end Moment

end ToneGraph
