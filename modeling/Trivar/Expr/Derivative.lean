import Trivar.Expr

/-!
Symbolic differentiation. A jet is a value together with its slope, the
derivative along one variable, and the operations on jets follow the rules of
differentiation. So an operation carried out on jets yields the slope of its
result: jets of expressions differentiate symbolically, jets of numbers
differentiate at a point.

The derivative of an expression comes from its arguments and their derivatives
by these rules, without any simplification. A composite operation is
differentiated through its expansion into primitive ones.
-/

namespace Trivar

structure Jet (α : Type) where
  value : α
  slope : α

instance {α : Type} [Arithmetic α] : Arithmetic (Jet α) where
  add a b := ⟨a.value + b.value, a.slope + b.slope⟩
  sub a b := ⟨a.value - b.value, a.slope - b.slope⟩
  mul a b := ⟨a.value * b.value, a.slope * b.value + a.value * b.slope⟩
  div a b :=
    ⟨a.value / b.value, (a.slope * b.value - a.value * b.slope) / (b.value * b.value)⟩
  neg a := ⟨-a.value, -a.slope⟩
  natCast n := ⟨n, (0 : Nat)⟩

/-- One for the variable itself, zero for numbers and other variables. A name that is not that of
a variable gives zero everywhere. -/
def Atom.derivative (name : String) : Atom → Expr
  | .number _ => (0 : Nat)
  | .variable v => if v.name = name then (1 : Nat) else (0 : Nat)

namespace Operator

/-- The derivative of an operation on arguments with these derivatives. -/
def derivative {α : Type} [Arithmetic α] (o : Operator) (args slopes : Tuple α o.arity) : α :=
  (o.combine (args.zipWith Jet.mk slopes)).slope

end Operator

namespace Expr

def derivative (name : String) : Expr → Expr := fold (Atom.derivative name) Operator.derivative

@[simp] theorem derivative_atom (name : String) (a : Atom) :
    derivative name (.atom a) = a.derivative name := rfl

@[simp] theorem derivative_apply (name : String) (o : Operator) (args : Tuple Expr o.arity) :
    derivative name (.apply o args) = o.derivative args (args.map (derivative name)) :=
  fold_apply ..

/-- A composite operation at the root is replaced by the primitive operations it stands for. -/
def expansion : Expr → Expr
  | .atom a => .atom a
  | .apply o args => if o.isComposite then o.combine args else .apply o args

/-- The trees on whose derivatives that of the root rests. -/
def differentiationArgs : Expr → List Expr
  | .atom _ => []
  | .apply o args => if o.isComposite then [o.combine args] else args.toList

end Expr

end Trivar
