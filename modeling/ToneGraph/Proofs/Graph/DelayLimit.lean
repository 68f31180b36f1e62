import ToneGraph.Proofs.Graph.Constants
import ToneGraph.Proofs.Synth.Monotone
/-!
# The limit of delays

A delay is refused if its time is less than zero or greater than the limit.  A limit that is no
number is not less than any time, so it refuses none, as if it were infinite.  All other limits hold
for every delay of an arena, whether or not the root reads it, and what holds for times holds for
lines: a greater time takes no shorter line.

## Main statements

* `Arena.time_of_finish`: the time and the line of a delay in an arena that was accepted.
* `Arena.limit_of_delays`: which limits hold, and what the others let pass.
-/

namespace ToneGraph

open Synth

namespace Arena

variable {settings : BuildSettings} {arena : Arena} {root : Nat} {g : Graph}

/-- A delay of an arena that was accepted, whether or not the root reads it. -/
theorem time_of_finish (h : arena.finish settings root = .ok g) {id : Nat} {input : Signal}
    {params : List Signal} {origin : Option Nat}
    (hcell : arena[id]? = some ⟨.effect .delay input params, origin⟩) :
    ∃ time seconds, params = [time] ∧ arena.constant? time = some seconds ∧
      settings.Allows seconds ∧
      g.memories[id]? =
        some (.delay (.silent (DelayLine.lengthFor seconds settings.sampleRate))) := by
  obtain ⟨time, seconds, rfl, hknown, hline⟩ := Graph.line_of_finish h hcell
  obtain ⟨seconds', hknown', hallows⟩ :=
    (exists_finish_iff.1 ⟨g, h⟩).timed id _ hcell input time rfl
  cases hknown.symm.trans hknown'
  exact ⟨time, seconds, rfl, hknown, hallows, hline⟩

/-- A limit that is no number allows what an infinite one allows. -/
theorem allows_iff_of_isNaN (hnan : settings.maxDelay.isNaN = true) (seconds : Float) :
    settings.Allows seconds ↔ ({ settings with maxDelay := 1.0 / 0.0 } : BuildSettings).Allows
      seconds := by
  constructor
  · rintro ⟨hfinite, hnegative, -⟩
    have hinfinite : (1.0 / 0.0 : Float).toModel.unpack = .infinity .positive := rfl
    exact ⟨hfinite, hnegative, not_infinity_lt hfinite hinfinite⟩
  · rintro ⟨hfinite, hnegative, -⟩
    refine ⟨hfinite, hnegative, fun hlt => ?_⟩
    rw [(number_of_lt hlt).1] at hnan
    contradiction

/-- Of a limit, only what it allows matters. -/
theorem wellFormed_congr {settings' : BuildSettings}
    (hrate : settings'.sampleRate = settings.sampleRate)
    (hallows : ∀ seconds, settings.Allows seconds ↔ settings'.Allows seconds) :
    arena.WellFormed settings root ↔ arena.WellFormed settings' root := by
  have hruns : settings'.Runs ↔ settings.Runs := by
    rw [BuildSettings.Runs, hrate, BuildSettings.Runs]
  have htimed : arena.Timed settings ↔ arena.Timed settings' := by
    simp only [Timed, Cell.Timed, hallows]
  constructor
  · intro h
    exact ⟨hruns.2 h.runs, h.root_lt, h.complete, h.acyclic, htimed.1 h.timed⟩
  · intro h
    exact ⟨hruns.1 h.runs, h.root_lt, h.complete, h.acyclic, htimed.2 h.timed⟩

/-- **The limit of delays.**  In an arena that was accepted, every delay, whether or not the root
reads it, has a constant time, which is finite and not negative, and a line for it.  The time is
within the limit, and the line no longer than one for the limit, exactly if the limit is a number.
A limit that is no number refuses no more than an infinite one does. -/
theorem limit_of_delays (settings : BuildSettings) (arena : Arena) (root : Nat) :
    (∀ g, arena.finish settings root = .ok g → ∀ (id : Nat) input params origin,
      arena[id]? = some ⟨.effect .delay input params, origin⟩ →
      ∃ time seconds, params = [time] ∧ arena.constant? time = some seconds ∧
        seconds.isFinite = true ∧ 0.0 ≤ seconds ∧
        g.memories[id]? =
          some (.delay (.silent (DelayLine.lengthFor seconds settings.sampleRate))) ∧
        (seconds ≤ settings.maxDelay ↔ settings.maxDelay.isNaN = false) ∧
        (settings.maxDelay.isNaN = false → DelayLine.lengthFor seconds settings.sampleRate ≤
          DelayLine.lengthFor settings.maxDelay settings.sampleRate)) ∧
    (settings.maxDelay.isNaN = true → ((∃ g, arena.finish settings root = .ok g) ↔
      ∃ g, arena.finish { settings with maxDelay := 1.0 / 0.0 } root = .ok g)) := by
  refine ⟨?_, fun hnan => ?_⟩
  · intro g hfinish id input params origin hcell
    obtain ⟨time, seconds, rfl, hknown, hallows, hline⟩ := time_of_finish hfinish hcell
    have hnumber : seconds.isNaN = false := isNaN_of_isFinite hallows.finite
    have hzero : 0.0 ≤ seconds := (not_lt_iff_le hnumber (by decide)).1 hallows.not_negative
    have hwithin : settings.maxDelay.isNaN = false → seconds ≤ settings.maxDelay :=
      fun hlimit => (not_lt_iff_le hlimit hnumber).1 hallows.within
    refine ⟨time, seconds, rfl, hknown, hallows.finite, hzero, hline,
      ⟨fun hle => (number_of_le hle).2, hwithin⟩, fun hlimit => ?_⟩
    obtain ⟨hrate, hpos⟩ := (exists_finish_iff.1 ⟨g, hfinish⟩).runs
    exact DelayLine.lengthFor_mono hallows.finite hzero (hwithin hlimit) hrate hpos
  · rw [exists_finish_iff, exists_finish_iff]
    exact wellFormed_congr rfl (allows_iff_of_isNaN hnan)

/-- The delay of a constant has a graph if its time is allowed. -/
theorem exists_finish_delay {settings : BuildSettings} (hruns : settings.Runs)
    {input seconds : Float} (hallows : settings.Allows seconds) {origin : Option Nat} :
    let arena : Arena := #[⟨.effect .delay (.constant input) [.constant seconds], origin⟩]
    ∃ g, arena.finish settings 0 = .ok g := by
  intro arena
  have hcomplete : arena.Complete := check_eq_ok_iff.1 rfl
  have horder : arena.order 0 = .ok [0] := by
    simp [Arena.order, search_enter, search, arena, inputsOf, Node.inputNodes, Node.inputs,
      Signal.node?, List.filterMap]
  have hroot : 0 < arena.size := Nat.one_pos
  have htimed : arena.Timed settings := by
    intro i cell hcell input time hnode
    rcases i with _ | i <;> cases hcell
    cases hnode
    exact ⟨seconds, rfl, hallows⟩
  exact exists_finish_iff.2 ⟨hruns, hroot, hcomplete,
    (exists_order_iff hcomplete hroot).1 ⟨_, horder⟩, htimed⟩

/-- Two seconds within a limit of ten. -/
theorem two_seconds_within_ten :
    let settings : BuildSettings := ⟨1000.0, defaultSeed, 10.0⟩
    let arena : Arena := #[⟨.effect .delay (.constant 1.0) [.constant 2.0], none⟩]
    ∃ g, arena.finish settings 0 = .ok g ∧
      g.memories[0]? = some (.delay (.silent (DelayLine.lengthFor 2.0 1000.0))) ∧
      (2.0 : Float) ≤ 10.0 ∧
      DelayLine.lengthFor 2.0 1000.0 ≤ DelayLine.lengthFor 10.0 1000.0 := by
  intro settings arena
  have hruns : settings.Runs := ⟨by decide, by decide⟩
  have hallows : settings.Allows 2.0 := ⟨by decide, by decide, by decide⟩
  obtain ⟨g, hg⟩ := exists_finish_delay hruns hallows
  obtain ⟨time, seconds, htime, hknown, -, -, hline, hwithin, hlength⟩ :=
    (limit_of_delays settings arena 0).1 g hg 0 _ _ _ rfl
  cases htime
  cases hknown
  have hnumber : settings.maxDelay.isNaN = false := by decide
  exact ⟨g, hg, hline, hwithin.2 hnumber, hlength hnumber⟩

/-- Two seconds pass a limit that is no number, and take a line. -/
theorem two_seconds_pass_nan :
    let settings : BuildSettings := ⟨1000.0, defaultSeed, 0.0 / 0.0⟩
    let arena : Arena := #[⟨.effect .delay (.constant 1.0) [.constant 2.0], none⟩]
    (∃ g, arena.finish settings 0 = .ok g ∧ g.memories[0]? = some (.delay (.silent 2000))) ∧
      arena.constant? (.constant 2.0) = some 2.0 ∧ ¬ 2.0 ≤ settings.maxDelay := by
  intro settings arena
  have hruns : settings.Runs := ⟨by decide, by decide⟩
  have hallows : settings.Allows 2.0 := ⟨by decide, by decide, by decide⟩
  have hcell : arena[0]? = some ⟨.effect .delay (.constant 1.0) [.constant 2.0], none⟩ := rfl
  obtain ⟨g, hg⟩ := exists_finish_delay hruns hallows
  obtain ⟨time, seconds, htime, hknown, -, hline⟩ := time_of_finish hg hcell
  cases htime
  cases hknown
  have hlength : DelayLine.lengthFor 2.0 1000.0 = 2000 := by decide +kernel
  rw [hlength] at hline
  exact ⟨⟨g, hg, hline⟩, rfl, by decide⟩

end Arena

end ToneGraph
