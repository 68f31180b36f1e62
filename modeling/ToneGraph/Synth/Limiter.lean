/-!
# Limiter

The guard in front of the output: nothing louder than its ceiling passes, and what is no number
becomes silence.
-/

namespace ToneGraph.Synth

/-- Forces a 32-bit value between two bounds. What is no number stays what it is. -/
def clamp32 (low high x : Float32) : Float32 :=
  let x := if x < low then low else x
  if high < x then high else x

/-- A volume between zero and one; what is no number counts as zero. -/
def volumeShare (x : Float32) : Float32 :=
  if x.isNaN then 0.0 else clamp32 0.0 1.0 x

/-- A hard limit to both sides. -/
structure Limiter where
  ceiling : Float32

namespace Limiter

/-- The limiter whose ceiling is one. -/
def default : Limiter := ⟨1.0⟩

/-- A limiter with a ceiling above zero and at most one; any other ceiling becomes one. -/
def ofCeiling (ceiling : Float32) : Limiter :=
  if 0.0 < ceiling && ceiling ≤ 1.0 then ⟨ceiling⟩ else default

/-- The value between minus the ceiling and the ceiling, silence for what is no number. -/
def limit (l : Limiter) (x : Float32) : Float32 :=
  if x.isNaN then 0.0 else clamp32 (-l.ceiling) l.ceiling x

end Limiter

end ToneGraph.Synth
