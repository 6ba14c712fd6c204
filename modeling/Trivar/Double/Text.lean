import Trivar.Double
import Trivar.Decimal

/-!
The text of a double: the fewest digits that read back as the same double,
positional from `0.0001` to below `10 ^ 16` and scientific outside.
-/

namespace Trivar.Double

/-- The numbers that round to the double with this code, in halves of a unit and on the scale
`10 ^ -1074`. The ends are midways to the neighbouring doubles and round to it when its code is
even. -/
def roundingInterval (code : Nat) : Decimal.Interval where
  low := (unitsOfCode (code - 1) + unitsOfCode code) * Nat.pow 5 1074
  value := 2 * unitsOfCode code * Nat.pow 5 1074
  high := (unitsOfCode code + unitsOfCode (code + 1)) * Nat.pow 5 1074
  closed := code % 2 = 0

/-- The significant digits of the shortest decimal in an interval of halves of a unit around
`value`, and the exponent of the first one. -/
def digitsIn (interval : Decimal.Interval) (value : Nat) : List Char × Int :=
  let leading := (Nat.toDigits 10 value).length - 1
  let (mantissa, exponent) := interval.shortest 2 leading
  let digits := Nat.toDigits 10 mantissa
  ((digits.reverse.dropWhile (· = '0')).reverse, exponent + digits.length - 1 - 1074)

/-- The significant digits of a positive finite double and the exponent of the first one. -/
def significantDigits (code : Nat) : List Char × Int :=
  digitsIn (roundingInterval code) (unitsOfCode code * Nat.pow 5 1074)

/-- Digits with the point after the place of the first one, moved by `exponent`; at least one
digit stands on each side of the point. -/
def positional (digits : List Char) (exponent : Int) : List Char :=
  if exponent < 0 then
    '0' :: '.' :: List.replicate (exponent.natAbs - 1) '0' ++ digits
  else
    let places := exponent.toNat + 1
    let whole := digits.take places ++ List.replicate (places - digits.length) '0'
    let fraction := digits.drop places
    whole ++ '.' :: (if fraction.isEmpty then ['0'] else fraction)

/-- A point only between digits, and an exponent with its sign and at least two digits. -/
def scientific (digits : List Char) (exponent : Int) : List Char :=
  let fraction := digits.drop 1
  let places := Nat.toDigits 10 exponent.natAbs
  digits.take 1 ++ (if fraction.isEmpty then [] else '.' :: fraction) ++
    'e' :: (if exponent < 0 then '-' else '+') :: (List.replicate (2 - places.length) '0' ++ places)

def magnitudeText (code : Nat) : List Char :=
  if code = 0 then ['0', '.', '0']
  else
    let (digits, exponent) := significantDigits code
    if -4 ≤ exponent ∧ exponent < 16 then positional digits exponent
    else scientific digits exponent

def text : Double → String
  | .nan => "nan"
  | .infinite negative => if negative then "-inf" else "inf"
  | .finite negative code =>
    let magnitude := magnitudeText code
    String.ofList (if negative then '-' :: magnitude else magnitude)

end Trivar.Double
