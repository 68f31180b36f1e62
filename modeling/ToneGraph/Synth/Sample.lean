/-!
# Arithmetic of samples

The few operations on floats that the units of this library share and that are not operators. Each
says what happens to the values that are no numbers.
-/

namespace ToneGraph.Synth

/-- The ratio of a circle to its diameter. -/
def pi : Float := 3.141592653589793

/-- A value that is not finite becomes silence, so that it never enters a memory. -/
def finiteOrZero (x : Float) : Float :=
  if x.isFinite then x else 0.0

/-- Forces a value between two bounds. What is no number stays what it is. -/
def clamp (low high x : Float) : Float :=
  let x := if x < low then low else x
  if high < x then high else x

/-- A share between zero and one; what is no number counts as zero. -/
def share (x : Float) : Float :=
  if x.isNaN then 0.0 else clamp 0.0 1.0 x

/-- The smaller of two values; if one of them is no number, the other. -/
def smaller (a b : Float) : Float :=
  if a.isNaN then b else if b < a then b else a

/-- The larger of two values; if one of them is no number, the other. -/
def larger (a b : Float) : Float :=
  if a.isNaN then b else if a < b then b else a

/-- Whether the sign bit is set, as it is for the negative zero. -/
def hasSign (x : Float) : Bool :=
  x.toBits ≥ 0x8000000000000000

/-- What is left of a finite value when its whole part is taken away. The sign stays, also on a
zero. -/
def fractional (x : Float) : Float :=
  let rest := x - (if x < 0.0 then x.ceil else x.floor)
  if rest == 0.0 then (if hasSign x then -0.0 else 0.0) else rest

/-- Moves a phase of a cycle on. The phase stays below one, also where rounding would carry a
tiny negative rest up to one. A step that is not finite does not move it. -/
def advancePhase (phase step : Float) : Float :=
  if step.isFinite then
    let rest := fractional (phase + step)
    let rest := if rest < 0.0 then rest + 1.0 else rest
    if 1.0 ≤ rest then 0.0 else rest
  else phase

/-- A float cut to a whole count. Negative values and what is no number count as zero, and a count
stays below two to the 64th power. -/
def toCount (x : Float) : Nat :=
  x.toUInt64.toNat

/-- A float rounded up to a whole count. Negative values and what is no number count as zero, and a
count stays below two to the 64th power. -/
def toCountUp (x : Float) : Nat :=
  let whole := toCount x
  if Float.ofNat whole < x then min (whole + 1) (UInt64.size - 1) else whole

theorem isFinite_finiteOrZero (x : Float) : (finiteOrZero x).isFinite = true := by
  unfold finiteOrZero
  split
  · assumption
  · decide

end ToneGraph.Synth
