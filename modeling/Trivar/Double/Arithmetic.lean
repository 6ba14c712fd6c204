import Trivar.Double.Rounding

/-!
Arithmetic on doubles: the exact result on units, rounded once, with the IEEE
754 rules for infinities, NaN and the sign of zero.
-/

namespace Trivar.Double

def neg : Double → Double
  | .nan => .nan
  | .infinite s => .infinite (!s)
  | .finite s a => .finite (!s) a

/-- A sum that is exactly zero is negative only when both terms are. -/
def add : Double → Double → Double
  | .nan, _ | _, .nan => .nan
  | .infinite s, .infinite t => if s = t then .infinite s else .nan
  | .infinite s, .finite _ _ => .infinite s
  | .finite _ _, .infinite t => .infinite t
  | .finite s a, .finite t b =>
    let sum := signed s (unitsOfCode a) + signed t (unitsOfCode b)
    if sum = 0 then zero (s && t) else ofQuotient (decide (sum < 0)) sum.natAbs 1

def sub (a b : Double) : Double := a.add b.neg

def mul : Double → Double → Double
  | .nan, _ | _, .nan => .nan
  | .infinite s, .infinite t => .infinite (s ^^ t)
  | .infinite s, .finite t b => if b.val = 0 then .nan else .infinite (s ^^ t)
  | .finite s a, .infinite t => if a.val = 0 then .nan else .infinite (s ^^ t)
  | .finite s a, .finite t b =>
    ofQuotient (s ^^ t) (unitsOfCode a * unitsOfCode b) unitsPerOne

/-- Zero divided by zero is NaN; any other number divided by zero is infinite. -/
def div : Double → Double → Double
  | .nan, _ | _, .nan => .nan
  | .infinite _, .infinite _ => .nan
  | .infinite s, .finite t _ => .infinite (s ^^ t)
  | .finite s _, .infinite t => zero (s ^^ t)
  | .finite s a, .finite t b =>
    if b.val = 0 then
      if a.val = 0 then .nan else .infinite (s ^^ t)
    else ofQuotient (s ^^ t) (unitsOfCode a * unitsPerOne) (unitsOfCode b)

end Trivar.Double
