import ToneGraph.Synth.EffectKind
import ToneGraph.Synth.MathOp
import ToneGraph.Synth.Noise
import ToneGraph.Synth.Oscillator
/-!
# The vocabulary

Every name that an expression may call, what it means, how many arguments it takes, and a line of
documentation for editors. The table is plain data; names are looked up in it once, when an
expression is checked.

## Main definitions

* `Function`: what a call means.
* `Word`: an entry of the table.
* `vocabulary`, `lookup`: the table and its look-up.
* `ContextName`: the names that stand for a value without a call.
-/

namespace ToneGraph

open Synth

/-- What a call means. -/
inductive Function where
  | oscillator (waveform : Waveform)
  | noise (color : NoiseColor)
  | random
  | ramp
  | math (op : MathOp)
  | effect (kind : EffectKind)
  deriving DecidableEq, Repr

namespace Function

/-- How many arguments the function needs. -/
def arity : Function → Nat
  | oscillator _ => 1
  | noise _ => 0
  | random => 0
  | ramp => 3
  | math op => op.arity
  | effect kind => 1 + kind.paramCount

/-- The name of the function itself, whatever word it was called by. -/
def name : Function → String
  | oscillator waveform => waveform.name
  | noise color => color.name
  | random => "random"
  | ramp => "ramp"
  | math op => op.name
  | effect kind => kind.name

end Function

/-- Groups of words. -/
inductive Category where
  | audio | math | effect | time
  deriving DecidableEq, Repr

/-- The name of a group. -/
def Category.name : Category → String
  | audio => "audio"
  | math => "math"
  | effect => "effect"
  | time => "time"

/-- An entry of the vocabulary. -/
structure Word where
  name : String
  function : Function
  arity : Nat
  category : Category
  doc : String
  usage : String
  deriving Repr

/-- Every word that may be called. -/
def vocabulary : List Word := [
  ⟨"sine", (.oscillator .sine), 1, .audio,
    "Generate a sine wave at the specified frequency", "sine(frequency)"⟩,
  ⟨"sin", (.oscillator .sine), 1, .audio,
    "Alias for sine", "sin(frequency)"⟩,
  ⟨"sawtooth", (.oscillator .saw), 1, .audio,
    "Generate a sawtooth wave at the specified frequency", "sawtooth(frequency)"⟩,
  ⟨"saw", (.oscillator .saw), 1, .audio,
    "Alias for sawtooth", "saw(frequency)"⟩,
  ⟨"square", (.oscillator .square), 1, .audio,
    "Generate a square wave at the specified frequency", "square(frequency)"⟩,
  ⟨"triangle", (.oscillator .triangle), 1, .audio,
    "Generate a triangle wave at the specified frequency", "triangle(frequency)"⟩,
  ⟨"tri", (.oscillator .triangle), 1, .audio,
    "Alias for triangle", "tri(frequency)"⟩,
  ⟨"noise", (.noise .white), 0, .audio,
    "Generate white noise", "noise()"⟩,
  ⟨"white", (.noise .white), 0, .audio,
    "Alias for noise", "white()"⟩,
  ⟨"pink", (.noise .pink), 0, .audio,
    "Generate pink noise (equal energy per octave)", "pink()"⟩,
  ⟨"brown", (.noise .brown), 0, .audio,
    "Generate brown noise (bounded random walk)", "brown()"⟩,
  ⟨"ramp", .ramp, 3, .time,
    "Create a linear ramp from start to end over duration", "ramp(start, end, duration)"⟩,
  ⟨"random", .random, 0, .math,
    "Uniform random value in [0, 1), drawn every sample", "random()"⟩,
  ⟨"abs", (.math .abs), 1, .math,
    "Absolute value", "abs(x)"⟩,
  ⟨"min", (.math .min), 2, .math,
    "Smaller of two values", "min(a, b)"⟩,
  ⟨"max", (.math .max), 2, .math,
    "Larger of two values", "max(a, b)"⟩,
  ⟨"floor", (.math .floor), 1, .math,
    "Round down", "floor(x)"⟩,
  ⟨"ceil", (.math .ceil), 1, .math,
    "Round up", "ceil(x)"⟩,
  ⟨"round", (.math .round), 1, .math,
    "Round to nearest, halves away from zero", "round(x)"⟩,
  ⟨"sqrt", (.math .sqrt), 1, .math,
    "Square root", "sqrt(x)"⟩,
  ⟨"pow", (.math .pow), 2, .math,
    "Raise base to exponent", "pow(base, exponent)"⟩,
  ⟨"exp", (.math .exp), 1, .math,
    "e raised to x", "exp(x)"⟩,
  ⟨"log", (.math .log), 1, .math,
    "Natural logarithm", "log(x)"⟩,
  ⟨"cos", (.math .cos), 1, .math,
    "Cosine of x radians", "cos(x)"⟩,
  ⟨"tan", (.math .tan), 1, .math,
    "Tangent of x radians", "tan(x)"⟩,
  ⟨"atan2", (.math .atan2), 2, .math,
    "Angle of the point (x, y) in radians", "atan2(y, x)"⟩,
  ⟨"lerp", (.math .lerp), 3, .math,
    "Linear interpolation between a and b by factor t", "lerp(a, b, t)"⟩,
  ⟨"delay", (.effect .delay), 2, .effect,
    "Add delay effect with specified time", "delay(signal, time)"⟩,
  ⟨"reverb", (.effect .reverb), 2, .effect,
    "Add reverb effect with specified amount", "reverb(signal, amount)"⟩,
  ⟨"filter", (.effect .lowpass), 2, .effect,
    "Alias for lowpass", "filter(signal, cutoff)"⟩,
  ⟨"lowpass", (.effect .lowpass), 2, .effect,
    "Attenuate content above the cutoff frequency", "lowpass(signal, cutoff)"⟩,
  ⟨"highpass", (.effect .highpass), 2, .effect,
    "Attenuate content below the cutoff frequency", "highpass(signal, cutoff)"⟩,
  ⟨"bandpass", (.effect .bandpass), 3, .effect,
    "Keep a band around the center frequency", "bandpass(signal, center, q)"⟩,
  ⟨"distortion", (.effect .distortion), 2, .effect,
    "Soft-clip the signal with tanh", "distortion(signal, drive)"⟩,
  ⟨"chorus", (.effect .chorus), 3, .effect,
    "Thicken the signal with a modulated delay", "chorus(signal, rate, mix)"⟩,
  ⟨"flanger", (.effect .flanger), 3, .effect,
    "Short swept delay with feedback", "flanger(signal, rate, mix)"⟩,
  ⟨"phaser", (.effect .phaser), 3, .effect,
    "Sweep notches through the spectrum", "phaser(signal, rate, mix)"⟩]

/-- The word of a name. -/
def lookup (name : String) : Option Word :=
  vocabulary.find? (·.name == name)

/-- Names that stand for a value without a call. -/
inductive ContextName where
  /-- The seconds since the graph started. -/
  | time
  deriving DecidableEq, Repr

/-- How a context name is written. -/
def ContextName.name : ContextName → String
  | time => "time"

/-- The context name that a text spells. -/
def lookupContext (name : String) : Option ContextName :=
  if name = "time" then some .time else none

/-- The table's arities are those of the functions. -/
theorem arity_eq_of_mem_vocabulary {w : Word} (h : w ∈ vocabulary) :
    w.arity = w.function.arity := by
  have all : vocabulary.all (fun w => w.arity == w.function.arity) = true := by decide
  simpa using List.all_eq_true.1 all w h

/-- No name stands in the table twice. -/
theorem nodup_vocabulary_names : (vocabulary.map Word.name).Nodup := by
  decide

end ToneGraph
