/-!
Decimals. Integers have a minus sign before the digits if they are negative, no
other sign and no leading zeros.

For other numbers the shortest decimal in an interval is found. The interval
holds a value and is given on a decimal scale, so that all three are natural
numbers; among the decimals with the fewest digits that lie in it, the one
nearest to the value is chosen.
-/

namespace Trivar.Decimal

def integerDigits (n : Int) : List Char :=
  if n < 0 then '-' :: Nat.toDigits 10 n.natAbs else Nat.toDigits 10 n.natAbs

def integer (n : Int) : String := String.ofList (integerDigits n)

/-- A value and the interval of numbers that stand for it, both ends included or none. -/
structure Interval where
  low : Nat
  value : Nat
  high : Nat
  closed : Bool

def Interval.Contains (i : Interval) (n : Nat) : Prop :=
  if i.closed then i.low ≤ n ∧ n ≤ i.high else i.low < n ∧ n < i.high

instance (i : Interval) (n : Nat) : Decidable (i.Contains n) := by
  unfold Interval.Contains
  infer_instance

/-- The multiple of `step` in the interval that is nearest to the value, divided by `step`; of
two at the same distance the even one. -/
def Interval.onGrid? (i : Interval) (step : Nat) : Option Nat :=
  let below := i.value / step
  let excess := i.value % step
  match decide (i.Contains (below * step)), decide (i.Contains ((below + 1) * step)) with
  | true, true =>
    if 2 * excess < step then some below
    else if step < 2 * excess then some (below + 1)
    else some (below + below % 2)
  | true, false => some below
  | false, true => some (below + 1)
  | false, false => none

/-- The first hit on the grids `unit * 10 ^ k`, `unit * 10 ^ (k - 1)`, …, with its exponent. The
finest grid holds the value itself. -/
def Interval.shortest (i : Interval) (unit : Nat) : Nat → Nat × Nat
  | 0 => (i.value / unit, 0)
  | k + 1 =>
    match i.onGrid? (unit * Nat.pow 10 (k + 1)) with
    | some n => (n, k + 1)
    | none => i.shortest unit k

end Trivar.Decimal
