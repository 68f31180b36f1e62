import ToneGraph.Number.Power
/-!
# Exact values of binary floating-point words

A floating-point word is a sign, a mantissa and a power of two. This module takes a word apart
into that exact value and puts the nearest word together for an exact fraction, for any width.
All of it is arithmetic on `Nat` and `Int`, so every decimal text of the library is computed
from the value itself and never from an approximation of it.

## Main definitions

* `Width`: how many bits of a word hold the fraction and how many the exponent.
* `Width.decode`: the value of a word.
* `Width.encode`: the word nearest to a fraction, a tie going to the even word.
* `narrow`: the 32-bit float nearest to a 64-bit float.
-/

namespace ToneGraph.Number

/-- The layout of a floating-point word: one sign bit, then the exponent, then the fraction. -/
structure Width where
  fractionBits : Nat
  exponentBits : Nat
  deriving DecidableEq, Repr

namespace Width

/-- Words of 64 bits. -/
def double : Width := ⟨52, 11⟩

/-- Words of 32 bits. -/
def single : Width := ⟨23, 8⟩

/-- The power of two that the last bit of the smallest values stands for. -/
def lowestExponent (w : Width) : Int :=
  2 - (twoTo (w.exponentBits - 1) : Int) - w.fractionBits

/-- The word of positive infinity: all exponent bits set, no fraction bit. -/
def infinity (w : Width) : Nat :=
  (twoTo w.exponentBits - 1) * twoTo w.fractionBits

end Width

/-- A finite value `(-1)^negative * mantissa * 2^exponent`. -/
structure Binary where
  negative : Bool
  mantissa : Nat
  exponent : Int
  /-- The neighbour nearer to zero is half as far away as the other one. -/
  tight : Bool
  deriving DecidableEq, Repr

/-- What a floating-point word stands for. -/
inductive Value where
  | nan
  | infinite (negative : Bool)
  | finite (value : Binary)
  deriving DecidableEq, Repr

/-- The value of the word `bits`. The two smallest exponents share a power of two, so the word
with the second of them and no fraction bit has neighbours at one distance. -/
def Width.decode (w : Width) (bits : Nat) : Value :=
  let fraction := bits % twoTo w.fractionBits
  let exponent := bits / twoTo w.fractionBits % twoTo w.exponentBits
  let negative := bits / twoTo (w.fractionBits + w.exponentBits) % 2 == 1
  if exponent = twoTo w.exponentBits - 1 then
    if fraction = 0 then .infinite negative else .nan
  else if exponent = 0 then
    .finite ⟨negative, fraction, w.lowestExponent, false⟩
  else
    .finite ⟨negative, twoTo w.fractionBits + fraction, w.lowestExponent + (exponent - 1),
      fraction == 0 && exponent != 1⟩

/-- The quotient of `num` and `den` rounded to the nearest whole number, a tie to the even one. -/
def roundDiv (num den : Nat) : Nat :=
  let quotient := num / den
  let twice := 2 * (num % den)
  if twice > den ∨ (twice = den ∧ quotient % 2 = 1) then quotient + 1 else quotient

/-- `num / den` over `2^exponent`, as a numerator and a denominator. -/
def scaleByTwo (num den : Nat) (exponent : Int) : Nat × Nat :=
  (num * twoTo (-exponent).toNat, den * twoTo exponent.toNat)

/-- The positive word nearest to `num / den`. The power of two is chosen so that the quotient has
one bit more than the fraction holds, but never below the lowest one; counting words from the
smallest value upwards makes a carry out of the fraction step into the next exponent. -/
def Width.encode (w : Width) (num den : Nat) : Nat :=
  if num = 0 then 0
  else
    let guess : Int := (num.log2 : Int) - den.log2 - 1 - w.fractionBits
    let low := max w.lowestExponent guess
    let (n, d) := scaleByTwo num den low
    let exponent := if n / d < twoTo (w.fractionBits + 1) then low else low + 1
    let (n, d) := scaleByTwo num den exponent
    let word := (exponent - w.lowestExponent).toNat * twoTo w.fractionBits + roundDiv n d
    min word w.infinity

/-- The value of a 64-bit float. -/
def ofFloat (x : Float) : Value :=
  Width.double.decode x.toBits.toNat

/-- The value of a 32-bit float. -/
def ofFloat32 (x : Float32) : Value :=
  Width.single.decode x.toBits.toNat

/-- The 32-bit float nearest to a 64-bit float, a tie going to the even mantissa. What is too large
becomes infinite. -/
def narrow (x : Float) : Float32 :=
  .ofModel <| .pack <|
    match x.toModel.unpack with
    | .finite sign mantissa exponent _ => .round .binary32 sign mantissa exponent
    | other => other

end ToneGraph.Number
