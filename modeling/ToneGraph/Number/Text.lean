import ToneGraph.Number.Decimal
/-!
# Texts of numbers

The layouts in which the library writes a float. Messages and graph listings use `plain`, dumps
use `debug`, tables of samples `scientific` and `fixed`, frequencies `rounded` and settings files
`setting`. Each is a choice of digits (`ToneGraph.Number.Decimal`) and a way to place the point.
-/

namespace ToneGraph.Number

/-- `n` zeros. -/
def zeros (n : Nat) : String :=
  String.ofList (List.replicate n '0')

/-- A minus sign for negative values, the negative zero included. -/
def sign (negative : Bool) : String :=
  if negative then "-" else ""

namespace Decimal

/-- The digits alone. -/
def digitText (d : Decimal) : String :=
  toString d.digits

/-- How many digits stand left of the point: the value is `0.digits` times ten to this. -/
def pointAt (d : Decimal) : Int :=
  d.digitText.length + d.exponent

/-- The digits of the whole part and those after the point, with no exponent. -/
def split (d : Decimal) : String × String :=
  let text := d.digitText
  let point := d.pointAt
  if d.digits = 0 then ("0", zeros (-d.exponent).toNat)
  else if point ≤ 0 then ("0", zeros (-point).toNat ++ text)
  else if text.length ≤ point.toNat then (text ++ zeros (point.toNat - text.length), "")
  else ((text.take point.toNat).toString, (text.drop point.toNat).toString)

/-- Digits around a point; a whole number has no point. -/
def positional (d : Decimal) : String :=
  let (whole, fraction) := d.split
  if fraction.isEmpty then whole else whole ++ "." ++ fraction

/-- As `positional`, but a whole number is followed by `.0`. -/
def pointed (d : Decimal) : String :=
  let (whole, fraction) := d.split
  whole ++ "." ++ (if fraction.isEmpty then "0" else fraction)

/-- One digit, the others after a point, and the power of ten of the first digit, which is
written with no plus sign and no padding. -/
def exponential (d : Decimal) : String :=
  let text := d.digitText
  let tail := (text.drop 1).toString
  let power := if d.digits = 0 then 0 else d.pointAt - 1
  (text.take 1).toString ++ (if tail.isEmpty then "" else "." ++ tail) ++ "e" ++ toString power

end Decimal

/-- The fewest digits that read back, never with an exponent. -/
def plain : Value → String
  | .nan => "NaN"
  | .infinite negative => sign negative ++ "inf"
  | .finite b => sign b.negative ++ (b.shortest .up).positional

/-- The fewest digits that read back, whole numbers with `.0`, and with an exponent from `1e16`
on and below `1e-4`. -/
def debug : Value → String
  | .nan => "NaN"
  | .infinite negative => sign negative ++ "inf"
  | .finite b =>
    let d := b.shortest .up
    let power := d.pointAt - 1
    sign b.negative ++
      (if d.digits ≠ 0 ∧ (power < -4 ∨ 16 ≤ power) then d.exponential else d.pointed)

/-- One digit, a point, nine digits and an exponent. -/
def scientific : Value → String
  | .nan => "nan"
  | .infinite negative => sign negative ++ "inf"
  | .finite b =>
    if b.mantissa = 0 then sign b.negative ++ "0.000000000e0"
    else sign b.negative ++ (b.significant 9).exponential

/-- The given number of places after the point. -/
def rounded (places : Nat) : Value → String
  | .nan => "NaN"
  | .infinite negative => sign negative ++ "inf"
  | .finite b => sign b.negative ++ (b.fixed places).positional

/-- Nine places after the point, with no sign on a zero; magnitudes from 1000 on in the
scientific form. -/
def fixed : Value → String
  | .nan => "nan"
  | .infinite negative => sign negative ++ "inf"
  | .finite b =>
    let (num, den) := b.ratio
    if 1000 * den ≤ num then scientific (.finite b)
    else
      let d := b.fixed 9
      sign (b.negative && d.digits != 0) ++ d.positional

/-- Bounds of the powers of ten of the leading digit that a settings file writes out. -/
structure SettingRange where
  lowest : Int
  highest : Int

/-- Doubles are written out from `1e-5` up to below `1e16`. -/
def doubleSetting : SettingRange := ⟨-5, 15⟩

/-- Singles are written out from `1e-6` up to below `1e13`. -/
def singleSetting : SettingRange := ⟨-6, 12⟩

/-- A float as a settings file writes it: the fewest digits, whole numbers with `.0`, an exponent
outside the range, and dotted words for the values that are no numbers. -/
def setting (range : SettingRange) : Value → String
  | .nan => ".nan"
  | .infinite negative => sign negative ++ ".inf"
  | .finite b =>
    let d := b.shortest .even
    let power := d.pointAt - 1
    sign b.negative ++
      (if d.digits ≠ 0 ∧ (power < range.lowest ∨ range.highest < power) then d.exponential
       else d.pointed)

/-- `length` hexadecimal digits of a number, lower case. -/
def hex (length n : Nat) : String :=
  let digits := Nat.toDigits 16 n
  String.ofList (List.replicate (length - digits.length) '0' ++ digits)

end ToneGraph.Number
