import ToneGraph.Number.Numeral
/-!
# Numbers in Yaml

The texts that can be read as numbers. Which scalars may be read so is a matter of nodes.

## Main definitions

* `digits?`: digits of a base.
* `whole?`: whole numbers in four bases.
* `float?`: finite decimals and the words for what is not finite.
-/

namespace ToneGraph.Yaml

/-- The digit a character stands for in a base, if it does. -/
def digit? (base : Nat) (c : Char) : Option Nat :=
  let value? : Option Nat :=
    if c.isDigit then some (c.toNat - '0'.toNat)
    else if 'a' ≤ c ∧ c ≤ 'z' then some (c.toNat - 'a'.toNat + 10)
    else if 'A' ≤ c ∧ c ≤ 'Z' then some (c.toNat - 'A'.toNat + 10)
    else none
  value?.filter (· < base)

/-- The number that digits of a base stand for. There must be one digit at least. -/
def digits? (base : Nat) (text : List Char) : Option Nat :=
  if text.isEmpty then none
  else text.foldlM (fun n c => (digit? base c).map (base * n + ·)) 0

/-- A whole number: decimal, or with a mark for base sixteen, eight or two. A plus sign may stand
in front. Decimal digits after a leading zero are text. -/
def whole? (text : String) : Option Nat :=
  let body :=
    match text.toList with
    | '+' :: rest => rest
    | rest => rest
  match body with
  | '0' :: 'x' :: rest => digits? 16 rest
  | '0' :: 'o' :: rest => digits? 8 rest
  | '0' :: 'b' :: rest => digits? 2 rest
  | '0' :: _ :: _ => none
  | rest => digits? 10 rest

/-- A float: a finite decimal, or a word with a dot in front. The word for what is no number has no
sign. -/
def float? (text : String) : Option Float :=
  let infinity : Float := 1.0 / 0.0
  let unsigned := ["inf", "Inf", "INF"].map ("." ++ ·)
  if unsigned.contains text ∨ (unsigned.map ("+" ++ ·)).contains text then some infinity
  else if (unsigned.map ("-" ++ ·)).contains text then some (-infinity)
  else if [".nan", ".NaN", ".NAN"].contains text then some (0.0 / 0.0)
  else (Number.float? text).filter Float.isFinite

end ToneGraph.Yaml
