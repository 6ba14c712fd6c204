import Trivar.Double.Arithmetic
import Trivar.Double.Text
import Trivar.Decimal

/-!
Numbers: exact integers of any size and doubles. Addition, subtraction,
multiplication and negation of integers are exact; as soon as a double takes
part, the integer is converted first, which fails past the range of doubles.
A quotient is always a double. Comparison is exact across both kinds.
-/

namespace Trivar

inductive Number
  | int (n : Int)
  | double (d : Double)
  deriving DecidableEq

/-- The ways in which an evaluation fails. -/
inductive EvalError
  | integerTooLarge
  | quotientTooLarge
  | noOperands
  deriving DecidableEq

def EvalError.message : EvalError → String
  | .integerTooLarge => "int too large to convert to float"
  | .quotientTooLarge => "integer division result too large for a float"
  | .noOperands => "reduce() of empty iterable with no initial value"

namespace Number

/-- A finite double, or the failure that the conversion of an integer gives. -/
def ofRounded (e : EvalError) : Double → Except EvalError Double
  | .finite negative code => .ok (.finite negative code)
  | _ => .error e

/-- Conversion for mixed arithmetic. -/
def toDouble : Number → Except EvalError Double
  | .int n => ofRounded .integerTooLarge (.ofInt n)
  | .double d => .ok d

/-- Conversion of a literal; integers past the range of doubles become infinite. -/
def saturated : Number → Double
  | .int n => .ofInt n
  | .double d => d

/-- Integers by the first operation, all other pairs by the second one on doubles. -/
def lift (onInts : Int → Int → Int) (onDoubles : Double → Double → Double) :
    Number → Number → Except EvalError Number
  | .int a, .int b => .ok (.int (onInts a b))
  | a, b => do
    let x ← a.toDouble
    let y ← b.toDouble
    return .double (onDoubles x y)

def add : Number → Number → Except EvalError Number := lift (· + ·) Double.add

def sub : Number → Number → Except EvalError Number := lift (· - ·) Double.sub

def mul : Number → Number → Except EvalError Number := lift (· * ·) Double.mul

def neg : Number → Number
  | .int n => .int (-n)
  | .double d => .double d.neg

/-- The quotient as a double. Two integers are divided exactly and rounded once, unless the
second one is zero: then the first one is converted and divided by zero. -/
def quotient : Number → Number → Except EvalError Double
  | .int a, .int b =>
    if b = 0 then (toDouble (.int a)).map (·.div (.zero false))
    else ofRounded .quotientTooLarge (.ofIntQuotient a b)
  | a, b => do
    let x ← a.toDouble
    let y ← b.toDouble
    return x.div y

def div (a b : Number) : Except EvalError Number := (quotient a b).map .double

/-- The place of a number on the extended line, in units of the doubles. -/
inductive Place
  | bottom
  | units (k : Int)
  | top
  deriving DecidableEq

def Place.lt : Place → Place → Bool
  | .units a, .units b => a < b
  | .bottom, q => q ≠ .bottom
  | p, .top => p ≠ .top
  | _, _ => false

/-- NaN has no place. -/
def place? : Number → Option Place
  | .int n => some (.units (n * Double.unitsPerOne))
  | .double .nan => none
  | .double (.infinite negative) => some (if negative then .bottom else .top)
  | .double (.finite negative code) =>
    some (.units (Double.signed negative (Double.unitsOfCode code)))

/-- Strictly smaller by value; false when one of the two is NaN. -/
def lt (a b : Number) : Bool :=
  match a.place?, b.place? with
  | some p, some q => p.lt q
  | _, _ => false

/-- Equal by value; false when one of the two is NaN. -/
def sameValue (a b : Number) : Bool :=
  match a.place?, b.place? with
  | some p, some q => p = q
  | _, _ => false

def text : Number → String
  | .int n => Decimal.integer n
  | .double d => d.text

end Number

end Trivar
