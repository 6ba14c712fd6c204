import Trivar.Expr.Derivative

/-!
Exact values of expressions. The rational numbers are completed by one infinite
value, the reciprocal of zero, and by an undefined one, so that every operation
has a result. A quotient is the product with a reciprocal and a difference the
sum with a negation.
-/

namespace Trivar

inductive Exact
  | rational (q : Rat)
  | infinite
  | undefined
  deriving DecidableEq

namespace Exact

def add : Exact → Exact → Exact
  | .undefined, _ | _, .undefined => .undefined
  | .infinite, .infinite => .undefined
  | .infinite, .rational _ | .rational _, .infinite => .infinite
  | .rational a, .rational b => .rational (a + b)

def neg : Exact → Exact
  | .rational a => .rational (-a)
  | .infinite => .infinite
  | .undefined => .undefined

def mul : Exact → Exact → Exact
  | .undefined, _ | _, .undefined => .undefined
  | .infinite, .infinite => .infinite
  | .infinite, .rational a | .rational a, .infinite => if a = 0 then .undefined else .infinite
  | .rational a, .rational b => .rational (a * b)

def reciprocal : Exact → Exact
  | .rational a => if a = 0 then .infinite else .rational a⁻¹
  | .infinite => .rational 0
  | .undefined => .undefined

instance : Arithmetic Exact where
  add := add
  sub a b := add a (neg b)
  mul := mul
  div a b := mul a (reciprocal b)
  neg := neg
  natCast n := .rational n

/-- The exact value of a finite double. -/
def ofNumber : Number → Exact
  | .int n => .rational n
  | .double (.finite negative code) =>
    .rational (mkRat (Double.signed negative (Double.unitsOfCode code)) Double.unitsPerOne)
  | .double (.infinite _) => .infinite
  | .double .nan => .undefined

def text : Exact → String
  | .rational q =>
    if q.den = 1 then Decimal.integer q.num
    else Decimal.integer q.num ++ "/" ++ Decimal.integer q.den
  | .infinite => "zoo"
  | .undefined => "nan"

end Exact

namespace Expr

def atomExact (values : Variable → Rat) : Atom → Exact
  | .number n => .ofNumber n
  | .variable v => .rational (values v)

/-- The exact value of an expression. -/
def exact (values : Variable → Rat) : Expr → Exact :=
  fold (atomExact values) fun o _ args => o.combine args

def atomJet (values : Variable → Rat) (name : String) (a : Atom) : Jet Exact where
  value := atomExact values a
  slope :=
    match a with
    | .number _ => .rational 0
    | .variable v => .rational (if v.name = name then 1 else 0)

/-- The exact value of the partial derivative along the variable with the given name. -/
def exactSlope (values : Variable → Rat) (name : String) (e : Expr) : Exact :=
  (fold (atomJet values name) (fun o _ args => o.combine args) e).slope

end Expr

end Trivar
