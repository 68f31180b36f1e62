import ToneGraph.Number.Binary
/-!
# Decimal digits of a binary value

Two questions are answered here in exact arithmetic: which decimal with the fewest digits reads
back as a given binary value, and which decimal with a given number of places is nearest to it.
How such a decimal is laid out on a page is decided in `ToneGraph.Number.Text`.

## Main definitions

* `Decimal`: a whole number of some power of ten.
* `Binary.shortest`: the fewest digits that read back.
* `Binary.fixed`: a number of places after the point.
* `Binary.significant`: a number of significant digits.
-/

namespace ToneGraph.Number

/-- The value `digits * 10^exponent`. -/
structure Decimal where
  digits : Nat
  exponent : Int
  deriving DecidableEq, Repr

/-- Moves the zeros at the end of the digits into the exponent, at most `fuel` of them. -/
def Decimal.strip : Nat → Decimal → Decimal
  | 0, d => d
  | fuel + 1, d =>
    if d.digits ≠ 0 ∧ d.digits % 10 = 0 then strip fuel ⟨d.digits / 10, d.exponent + 1⟩ else d

/-- `num / den` over `10^exponent`, as a numerator and a denominator. -/
def scaleByTen (num den : Nat) (exponent : Int) : Nat × Nat :=
  (num * tenTo (-exponent).toNat, den * tenTo exponent.toNat)

/-- Whether `10^exponent` is at most `num / den`. -/
def tenPowerLe (num den : Nat) (exponent : Int) : Bool :=
  let (n, d) := scaleByTen num den exponent
  d ≤ n

/-- Steps an estimate of the leading power of ten to the right one. -/
def leadingPower (num den : Nat) : Nat → Int → Int
  | 0, estimate => estimate
  | fuel + 1, estimate =>
    if !tenPowerLe num den estimate then leadingPower num den fuel (estimate - 1)
    else if tenPowerLe num den (estimate + 1) then leadingPower num den fuel (estimate + 1)
    else estimate

/-- Which of two decimals at one distance is chosen. -/
inductive Tie where
  /-- The larger one. -/
  | up
  /-- The one whose last digit is even. -/
  | even
  deriving DecidableEq, Repr

namespace Binary

/-- The magnitude as a fraction. -/
def ratio (b : Binary) : Nat × Nat :=
  (b.mantissa * twoTo b.exponent.toNat, twoTo (-b.exponent).toNat)

/-- The power of ten of the leading digit of a magnitude that is not zero. The estimate takes
`30103 / 100000` for the decimal logarithm of two and is at most a few steps off. -/
def magnitude (b : Binary) : Int :=
  let (num, den) := b.ratio
  leadingPower num den 8 (Int.fdiv ((b.mantissa.log2 + b.exponent) * 30103) 100000)

/-- The point of the grid of `10^k` that reads back as `b`, if there is one: the one below the
value, the one above it, and of both the nearer, or in a tie the one it names. In quarters of the
last bit, the numbers that read back as `b` reach from two below (one, where the lower neighbour is
nearer) to two above; the ends belong to them when the mantissa is even. -/
def gridPoint (b : Binary) (tie : Tie) (k : Int) : Option Nat :=
  let quarter := b.exponent - 2
  let unit := twoTo quarter.toNat
  let (value, den) := scaleByTen (4 * b.mantissa * unit) (twoTo (-quarter).toNat) k
  let (step, _) := scaleByTen unit 1 k
  let low := value - (if b.tight then step else 2 * step)
  let high := value + 2 * step
  let below := value / den
  let above := below + 1
  let closed := b.mantissa % 2 = 0
  let hitBelow := low < below * den ∨ (closed ∧ low = below * den)
  let hitAbove := above * den < high ∨ (closed ∧ above * den = high)
  if hitBelow ∧ hitAbove then
    let twice := 2 * (value % den)
    if twice < den ∨ (twice = den ∧ tie = .even ∧ below % 2 = 0) then some below else some above
  else if hitBelow then some below
  else if hitAbove then some above
  else none

/-- The first grid point that reads back, on finer and finer grids. -/
def firstGridPoint (b : Binary) (tie : Tie) : Nat → Int → Decimal
  | 0, k => ⟨(b.gridPoint tie k).getD 0, k⟩
  | fuel + 1, k =>
    match b.gridPoint tie k with
    | some digits => ⟨digits, k⟩
    | none => firstGridPoint b tie fuel (k - 1)

/-- The decimal with the fewest digits that reads back as the magnitude of `b`; of several, the
nearest one. Seventeen digits always suffice. -/
def shortest (b : Binary) (tie : Tie) : Decimal :=
  if b.mantissa = 0 then ⟨0, 0⟩ else (b.firstGridPoint tie 17 b.magnitude).strip 2

/-- The magnitude rounded to `places` digits after the point, a tie to the even digit. -/
def fixed (b : Binary) (places : Nat) : Decimal :=
  let (num, den) := b.ratio
  ⟨roundDiv (num * tenTo places) den, -places⟩

/-- The magnitude rounded to `1 + places` significant digits, a tie to the even digit. A value
that rounds up to the next power of ten moves on to that power. -/
def significant (b : Binary) (places : Nat) : Decimal :=
  if b.mantissa = 0 then ⟨0, 0⟩
  else
    let (num, den) := b.ratio
    let exponent := b.magnitude - places
    let (n, d) := scaleByTen num den exponent
    let digits := roundDiv n d
    if digits < tenTo (places + 1) then ⟨digits, exponent⟩ else ⟨digits / 10, exponent + 1⟩

end Binary

end ToneGraph.Number
