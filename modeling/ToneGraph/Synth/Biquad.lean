import ToneGraph.Synth.Sample
/-!
# Second-order filters

A filter with two zeros and two poles in the transposed direct form. Its cutoff and quality may
change with every sample; the coefficients are computed again only when the clamped parameters
are others than before.

## Main definitions

* `Coefficients.of`: the coefficients of a mode, a cutoff and a quality.
* `Biquad.setParams`, `Biquad.step`: new parameters, and one sample.
-/

namespace ToneGraph.Synth

/-- The lowest cutoff, in cycles per second. -/
def minCutoff : Float := 10.0

/-- The highest cutoff as a share of the sample rate. -/
def maxCutoffRatio : Float := 0.45

/-- The lowest quality. -/
def minQuality : Float := 0.1

/-- The highest quality. -/
def maxQuality : Float := 30.0

/-- The quality of a filter with no peak at its cutoff: one over the square root of two. -/
def defaultQuality : Float := 0.7071067811865476

/-- What a filter lets through. -/
inductive FilterMode where
  | lowpass | highpass
  /-- A band whose centre passes unchanged. -/
  | bandpass
  deriving DecidableEq, Repr

namespace FilterMode

/-- Every mode once. -/
def all : List FilterMode := [lowpass, highpass, bandpass]

/-- The name of a mode. -/
def name : FilterMode → String
  | lowpass => "lowpass"
  | highpass => "highpass"
  | bandpass => "bandpass"

end FilterMode

/-- The weights of the last inputs and outputs, scaled so that the current output has weight one. -/
structure Coefficients where
  b0 : Float
  b1 : Float
  b2 : Float
  a1 : Float
  a2 : Float

/-- The coefficients of a filter. -/
def Coefficients.of (mode : FilterMode) (sampleRate cutoff quality : Float) : Coefficients :=
  let angle := 2.0 * pi * cutoff / sampleRate
  let cosine := angle.cos
  let alpha := angle.sin / (2.0 * quality)
  let a0 := 1.0 + alpha
  let scaled (b0 b1 b2 : Float) : Coefficients :=
    ⟨b0 / a0, b1 / a0, b2 / a0, -2.0 * cosine / a0, (1.0 - alpha) / a0⟩
  match mode with
  | .lowpass =>
    let b1 := 1.0 - cosine
    scaled (b1 / 2.0) b1 (b1 / 2.0)
  | .highpass =>
    let b1 := -(1.0 + cosine)
    scaled (-b1 / 2.0) b1 (-b1 / 2.0)
  | .bandpass => scaled alpha 0.0 (-alpha)

/-- A filter: its parameters, the coefficients that belong to them, and two memories. -/
structure Biquad where
  mode : FilterMode
  sampleRate : Float
  cutoff : Float
  quality : Float
  coefficients : Coefficients
  z1 : Float
  z2 : Float

namespace Biquad

/-- A cutoff forced into the range of the sample rate; what is no number counts as the lowest. -/
def clampCutoff (sampleRate cutoff : Float) : Float :=
  if cutoff.isNaN then minCutoff
  else clamp minCutoff (larger (sampleRate * maxCutoffRatio) minCutoff) cutoff

/-- A quality forced into range; what is no number counts as the default. -/
def clampQuality (quality : Float) : Float :=
  if quality.isNaN then defaultQuality else clamp minQuality maxQuality quality

/-- Takes new parameters. Coefficients are kept while the clamped parameters equal the old ones. -/
def setParams (f : Biquad) (cutoff quality : Float) : Biquad :=
  let cutoff := clampCutoff f.sampleRate cutoff
  let quality := clampQuality quality
  if cutoff == f.cutoff && quality == f.quality then f
  else { f with cutoff, quality, coefficients := .of f.mode f.sampleRate cutoff quality }

/-- A filter at rest, with its cutoff at 1000. The parameters before that are no numbers, which
equal nothing. -/
def rest (mode : FilterMode) (sampleRate : Float) : Biquad :=
  let nan := 0.0 / 0.0
  setParams ⟨mode, sampleRate, nan, nan, ⟨1.0, 0.0, 0.0, 0.0, 0.0⟩, 0.0, 0.0⟩ 1000.0
    defaultQuality

/-- One sample. An input that is not finite counts as silence. -/
def step (f : Biquad) (input : Float) : Float × Biquad :=
  let input := finiteOrZero input
  let c := f.coefficients
  let out := c.b0 * input + f.z1
  (out, { f with
    z1 := c.b1 * input - c.a1 * out + f.z2
    z2 := c.b2 * input - c.a2 * out })

end Biquad

end ToneGraph.Synth
