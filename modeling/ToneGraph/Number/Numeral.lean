import ToneGraph.Number.Binary
/-!
# Reading decimal numerals

A numeral is a run of digits, perhaps a point with more digits, perhaps a power of ten. Its value
is a fraction, and the float read is the one nearest to that fraction. Powers of ten far outside
the range of floats are recognised before any power is computed, so a short text never costs more
than its length.
-/

namespace ToneGraph.Number

/-- The digit a character stands for. -/
def digitValue (c : Char) : Nat :=
  c.toNat - '0'.toNat

/-- The number a run of decimal digits stands for. -/
def digitsValue (digits : List Char) : Nat :=
  digits.foldl (fun n c => 10 * n + digitValue c) 0

/-- The parts of an unsigned decimal numeral. -/
structure Numeral where
  whole : List Char
  fraction : List Char
  exponent : Int
  deriving DecidableEq, Repr

namespace Numeral

/-- All digits as one number; the value is this times ten to `power`. -/
def mantissa (n : Numeral) : Nat :=
  digitsValue (n.whole ++ n.fraction)

/-- The power of ten of the last digit. -/
def power (n : Numeral) : Int :=
  n.exponent - n.fraction.length

/-- Beyond this power of ten every value of the widths used here is infinite, and below its
negative every value rounds to zero. -/
def powerLimit : Int := 400

/-- The magnitude of the word nearest to the numeral. -/
def toBits (w : Width) (n : Numeral) : Nat :=
  let mantissa := n.mantissa
  if mantissa = 0 then 0
  else
    let leading := n.power + (Nat.toDigits 10 mantissa).length
    if powerLimit < leading then w.infinity
    else if leading < -powerLimit then 0
    else w.encode (mantissa * tenTo n.power.toNat) (tenTo (-n.power).toNat)

/-- The 64-bit float nearest to the numeral. -/
def toFloat (n : Numeral) : Float :=
  Float.ofBits (UInt64.ofNat (n.toBits .double))

end Numeral

/-- A run of digits at the start, and the rest. -/
def spanDigits (text : List Char) : List Char × List Char :=
  (text.takeWhile Char.isDigit, text.dropWhile Char.isDigit)

/-- A sign at the start, read as whether it is a minus, and the rest. -/
def spanSign : List Char → Bool × List Char
  | '-' :: rest => (true, rest)
  | '+' :: rest => (false, rest)
  | text => (false, text)

/-- The power of ten that ends a numeral: nothing, or the letter `e` in either case, a sign if
wanted, and at least one digit. -/
def exponent? : List Char → Option Int
  | [] => some 0
  | c :: rest =>
    if c = 'e' ∨ c = 'E' then
      let (negative, digits) := spanSign rest
      if digits.isEmpty ∨ !digits.all Char.isDigit then none
      else
        let size : Int := digitsValue digits
        some (if negative then -size else size)
    else none

/-- An unsigned numeral that fills the text. The point may stand at either end, but not alone. -/
def numeral? (text : List Char) : Option Numeral :=
  let (whole, rest) := spanDigits text
  let (fraction, rest) :=
    match rest with
    | '.' :: rest => spanDigits rest
    | rest => ([], rest)
  if whole.isEmpty ∧ fraction.isEmpty then none
  else (exponent? rest).map fun exponent => ⟨whole, fraction, exponent⟩

/-- A float that fills the text: a sign if wanted, then a numeral or one of the words `inf`,
`infinity` and `nan` in any case of letters. -/
def float? (text : String) : Option Float :=
  let (negative, rest) := spanSign text.toList
  let word := String.ofList (rest.map Char.toLower)
  let magnitude :=
    if word = "inf" ∨ word = "infinity" then some (1.0 / 0.0)
    else if word = "nan" then some (0.0 / 0.0)
    else (numeral? rest).map Numeral.toFloat
  magnitude.map fun x => if negative then -x else x

/-- A whole number that fills the text, in decimal with a plus sign if wanted, below `bound`. -/
def natural? (bound : Nat) (text : String) : Option Nat :=
  let digits :=
    match text.toList with
    | '+' :: rest => rest
    | rest => rest
  if digits.isEmpty ∨ !digits.all Char.isDigit then none
  else
    let n := digitsValue digits
    if n < bound then some n else none

end ToneGraph.Number
