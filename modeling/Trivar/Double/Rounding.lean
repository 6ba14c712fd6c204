import Trivar.Double

/-!
Rounding to the nearest double, ties to even. `ofQuotient` rounds an exact
quotient of natural numbers; every operation on doubles and every conversion
from integers ends here.
-/

namespace Trivar

/-- The integer nearest to `num / den`; a half goes to the even neighbour. -/
def roundHalfEven (num den : Nat) : Nat :=
  let quotient := num / den
  let twice := 2 * (num % den)
  if twice < den then quotient
  else if den < twice then quotient + 1
  else quotient + quotient % 2

namespace Double

/-- The code of the double nearest to `num / den` units. The quotient has at most 53 binary
digits before the grid gets coarser than the unit; from then on `53` digits are kept. Codes count
doubles, so a mantissa that rounds up to `2 ^ 53` yields the first code of the next binade, and
past the last binade a code that is not finite. -/
def nearestCode (num den : Nat) : Nat :=
  let shift := (num / den).log2 - 52
  shift * Nat.pow 2 52 + roundHalfEven num (den * Nat.pow 2 shift)

/-- The double nearest to `num / den` units, infinite when that lies past the finite doubles. -/
def ofQuotient (negative : Bool) (num den : Nat) : Double :=
  ofCode negative (nearestCode num den)

/-- The double nearest to an integer. -/
def ofInt (n : Int) : Double :=
  ofQuotient (decide (n < 0)) (n.natAbs * unitsPerOne) 1

/-- The double nearest to the quotient of two integers, the second one not zero. The quotient
is negative, and then also a zero, when exactly one of the two is. -/
def ofIntQuotient (a b : Int) : Double :=
  ofQuotient (decide (a < 0) ^^ decide (b < 0)) (a.natAbs * unitsPerOne) b.natAbs

end Double

end Trivar
