import ToneGraph.Proofs.Synth.Value
import ToneGraph.Synth.Biquad
/-!
# Coefficients that are kept

A filter computes its coefficients again only when its clamped parameters are others than before.
Whoever hears it cannot tell: the outputs are those of a filter that computes them on every call.

The invariant is that the coefficients belong to the parameters that stand beside them.  The test
for old parameters is the equality of floats, which identifies the two zeros and tells nothing about
what is no number.  Clamped parameters are numbers above zero, so there the test is that of
identity.  A filter at rest starts from parameters that are no numbers, and for these the test fails
as it should: no coefficients belong to them yet.

Clamping between bounds that cross ends the program.  The upper bound of the cutoff is the larger of
two values of which one is the lower bound, so the bounds are ordered at every sample rate.

## Main definitions

* `Biquad.recompute`: new parameters, with the coefficients computed in any case.
* `Biquad.Call`, `Biquad.outputs`: what is asked of a filter, and what it answers.
* `Biquad.setParams?`, `Biquad.outputs?`: the same where crossed bounds end the program.
* `Biquad.Current`: the coefficients belong to the parameters.

## Main statements

* `Biquad.Current.setParams_eq`: the test never keeps coefficients of other parameters.
* `Biquad.outputs_rest_eq_recomputed`: no call ends the program, and no output tells that
  coefficients are kept.
-/

namespace ToneGraph.Synth

/-- Equal floats are the same float unless they are zeros, and above a bound there are no zeros. -/
theorem eq_of_beq_of_le {low x y : Float} (hzero : ¬ low ≤ 0) (hnegative : ¬ low ≤ -0)
    (hx : low ≤ x) (h : (x == y) = true) : x = y := by
  obtain ⟨-, -, heq | ⟨rfl, -⟩ | ⟨rfl, -⟩⟩ := Float.beq_iff_ne_nan_and_eq.1 h
  · exact heq
  · exact absurd hx hzero
  · exact absurd hx hnegative

/-- Forces a value between two bounds, unless the bounds cross. -/
def clamp? (low high x : Float) : Option Float :=
  if low ≤ high then some (clamp low high x) else none

namespace Biquad

/-! ## Two filters -/

/-- Takes new parameters and computes the coefficients that belong to them. -/
def recompute (f : Biquad) (cutoff quality : Float) : Biquad :=
  let cutoff := clampCutoff f.sampleRate cutoff
  let quality := clampQuality quality
  { f with cutoff, quality, coefficients := .of f.mode f.sampleRate cutoff quality }

/-- A filter that has been given no parameters yet. -/
def blank (mode : FilterMode) (sampleRate : Float) : Biquad :=
  ⟨mode, sampleRate, 0.0 / 0.0, 0.0 / 0.0, ⟨1.0, 0.0, 0.0, 0.0, 0.0⟩, 0.0, 0.0⟩

/-- What is asked of a filter. -/
inductive Call where
  | setParams (cutoff quality : Float)
  | process (input : Float)

/-- The outputs of a filter in a sequence of calls, where `set` takes new parameters. -/
def outputs (set : Biquad → Float → Float → Biquad) : Biquad → List Call → List Float
  | _, [] => []
  | f, .setParams cutoff quality :: calls => outputs set (set f cutoff quality) calls
  | f, .process input :: calls => (f.step input).1 :: outputs set (f.step input).2 calls

def clampCutoff? (sampleRate cutoff : Float) : Option Float :=
  if cutoff.isNaN then some minCutoff
  else clamp? minCutoff (larger (sampleRate * maxCutoffRatio) minCutoff) cutoff

def clampQuality? (quality : Float) : Option Float :=
  if quality.isNaN then some defaultQuality else clamp? minQuality maxQuality quality

/-- Takes new parameters as `setParams` does, unless the bounds of a parameter cross. -/
def setParams? (f : Biquad) (cutoff quality : Float) : Option Biquad := do
  let cutoff ← clampCutoff? f.sampleRate cutoff
  let quality ← clampQuality? quality
  if cutoff == f.cutoff && quality == f.quality then return f
  return { f with cutoff, quality, coefficients := .of f.mode f.sampleRate cutoff quality }

/-- The outputs of a filter in a sequence of calls, unless one of them ends the program. -/
def outputs? : Biquad → List Call → Option (List Float)
  | _, [] => some []
  | f, .setParams cutoff quality :: calls => do outputs? (← f.setParams? cutoff quality) calls
  | f, .process input :: calls => do
    return (f.step input).1 :: (← outputs? (f.step input).2 calls)

/-! ## Ordered bounds -/

variable {low high fallback x : Float}

/-- A parameter is no less than its lower bound if what stands in for it is not. -/
theorem le_forced (hle : low ≤ high) (hfallback : low ≤ fallback) :
    low ≤ if x.isNaN then fallback else clamp low high x := by
  split
  · exact hfallback
  · next hnumber => exact le_clamp hle (Bool.not_eq_true _ ▸ hnumber)

theorem forced?_eq (hle : low ≤ high) :
    (if x.isNaN then some fallback else clamp? low high x) =
      some (if x.isNaN then fallback else clamp low high x) := by
  rw [clamp?, if_pos hle, apply_ite some]

theorem cutoff_bounds (sampleRate : Float) :
    minCutoff ≤ larger (sampleRate * maxCutoffRatio) minCutoff :=
  le_larger _ (by decide)

theorem quality_bounds : minQuality ≤ maxQuality := by decide

theorem le_clampCutoff (sampleRate cutoff : Float) : minCutoff ≤ clampCutoff sampleRate cutoff :=
  le_forced (cutoff_bounds sampleRate) (by decide)

theorem le_clampQuality (quality : Float) : minQuality ≤ clampQuality quality :=
  le_forced quality_bounds (by decide)

theorem clampCutoff?_eq (sampleRate cutoff : Float) :
    clampCutoff? sampleRate cutoff = some (clampCutoff sampleRate cutoff) :=
  forced?_eq (cutoff_bounds sampleRate)

theorem clampQuality?_eq (quality : Float) : clampQuality? quality = some (clampQuality quality) :=
  forced?_eq quality_bounds

/-- New parameters never end the program. -/
theorem setParams?_eq (f : Biquad) (cutoff quality : Float) :
    f.setParams? cutoff quality = some (f.setParams cutoff quality) := by
  rw [setParams?, clampCutoff?_eq, clampQuality?_eq, setParams, apply_ite some]
  rfl

theorem outputs?_eq (f : Biquad) (calls : List Call) :
    f.outputs? calls = some (f.outputs setParams calls) := by
  induction calls generalizing f with
  | nil => rfl
  | cons call calls ih =>
      cases call with
      | setParams cutoff quality =>
          rw [outputs?, setParams?_eq]
          exact ih _
      | process input =>
          rw [outputs?, ih]
          rfl

/-! ## Current coefficients -/

/-- The coefficients belong to the parameters, and these are clamped. -/
structure Current (f : Biquad) : Prop where
  cutoff_le : minCutoff ≤ f.cutoff
  quality_le : minQuality ≤ f.quality
  coefficients_eq : f.coefficients = .of f.mode f.sampleRate f.cutoff f.quality

theorem current_recompute (f : Biquad) (cutoff quality : Float) :
    (f.recompute cutoff quality).Current :=
  ⟨le_clampCutoff f.sampleRate cutoff, le_clampQuality quality, rfl⟩

variable {f : Biquad}

/-- A sample changes the memories only. -/
theorem Current.step (h : f.Current) (input : Float) : (f.step input).2.Current :=
  ⟨h.cutoff_le, h.quality_le, h.coefficients_eq⟩

/-- Where the test finds the old parameters, computing their coefficients changes nothing. -/
theorem Current.setParams_eq (h : f.Current) (cutoff quality : Float) :
    f.setParams cutoff quality = f.recompute cutoff quality := by
  unfold setParams
  dsimp only
  split
  · next hold =>
      rw [Bool.and_eq_true] at hold
      have hcutoff : clampCutoff f.sampleRate cutoff = f.cutoff :=
        eq_of_beq_of_le (by decide) (by decide) (le_clampCutoff _ _) hold.1
      have hquality : clampQuality quality = f.quality :=
        eq_of_beq_of_le (by decide) (by decide) (le_clampQuality _) hold.2
      unfold recompute
      dsimp only
      rw [hcutoff, hquality, ← h.coefficients_eq]
  · rfl

/-- The first parameters are new, for what is no number equals nothing. -/
theorem rest_eq (mode : FilterMode) (sampleRate : Float) :
    rest mode sampleRate = (blank mode sampleRate).recompute 1000.0 defaultQuality := by
  have hnan : (0.0 / 0.0 : Float) = Float.nan := by decide
  have hnew : ¬ (clampCutoff sampleRate 1000.0 == (0.0 / 0.0 : Float) &&
      clampQuality defaultQuality == (0.0 / 0.0 : Float)) = true := by
    rw [hnan, Float.beq_nan_eq_false, Bool.false_and]
    exact Bool.false_ne_true
  exact if_neg hnew

theorem Current.outputs_eq (h : f.Current) (calls : List Call) :
    f.outputs setParams calls = f.outputs recompute calls := by
  induction calls generalizing f with
  | nil => rfl
  | cons call calls ih =>
      cases call with
      | setParams cutoff quality =>
          show (f.setParams cutoff quality).outputs setParams calls =
            (f.recompute cutoff quality).outputs recompute calls
          rw [h.setParams_eq]
          exact ih (current_recompute f cutoff quality)
      | process input => exact congrArg _ (ih (h.step input))

/-- A filter answers every sequence of calls, whatever the arguments, with the outputs of a filter
that computes its coefficients on every call.  The first parameters are a call too. -/
theorem outputs_rest_eq_recomputed (mode : FilterMode) (sampleRate : Float) (calls : List Call) :
    (blank mode sampleRate).outputs? (.setParams 1000.0 defaultQuality :: calls) =
        some ((rest mode sampleRate).outputs setParams calls) ∧
      (rest mode sampleRate).outputs setParams calls =
        (blank mode sampleRate).outputs recompute (.setParams 1000.0 defaultQuality :: calls) := by
  have hcurrent : (rest mode sampleRate).Current := by
    rw [rest_eq]
    exact current_recompute _ _ _
  refine ⟨outputs?_eq _ _, ?_⟩
  rw [hcurrent.outputs_eq, rest_eq]
  rfl

end Biquad

end ToneGraph.Synth
